import YasinCore.DI.Container
import YasinCore.Security.Auditing
import Mathlib.Data.Fintype.EquivFin

namespace YasinCore.Security

open YasinCore.Library YasinCore.DI

-- What leaves a call of a protected function; raised is what the function itself raises.
inductive CallError
  | security (e : SecurityError)
  | typeError (message : String)
  | container (e : DIError)
  | raised (message : String)
  deriving DecidableEq

-- The security managers there are, by number, and the container of the running client.
structure Process where
  managers : List SecurityManager
  container : DIContainer (List SecurityManager) Nat

abbrev Protected (α : Type) := EStateM CallError Process α

namespace SecurityManager

def init : SecurityManager := ⟨.init, ⟨[], 200⟩, .empty, .empty⟩

def qualname : String := "yasin_core.security.manager.SecurityManager"

-- The class itself: its constructor takes an event bus and a master key, or neither.
def provider : Provider (List SecurityManager) Nat where
  name := "SecurityManager"
  isClass := true
  parameters := [⟨"self", false, none, "None", none⟩,
    ⟨"event_bus", false, none, "Optional", some none⟩, ⟨"master_key", false, none, "Optional", some none⟩]
  call := fun _ managers => .ok (some managers.length) (managers ++ [init])

end SecurityManager

-- The classes of a program of which this one is a part.
def withManager (others : Classes (List SecurityManager) Nat) : Classes (List SecurityManager) Nat :=
  { others with constructor := fun qualname =>
      if qualname = SecurityManager.qualname then SecurityManager.provider
      else others.constructor qualname }

-- The keyword argument, those of the positional ones that are subjects, and what a context with a
-- method get_variable has under security_subject.
structure Arguments where
  subject : Option Subject
  positional : List (Option Subject)
  inContext : Option Subject

def Arguments.resolveSubject (arguments : Arguments) : Option Subject :=
  (arguments.subject.or (arguments.positional.findSome? id)).or arguments.inContext

-- The frames that the interpreter allows.
def recursionLimit : Nat := 1000

namespace Protected

variable {α : Type}

-- DIContainer().resolve(key)
def resolveNew (classes : Classes (List SecurityManager) Nat) (key : Key) : Protected (Option Nat) :=
  fun process =>
    match DI.Operation.resolve classes recursionLimit key ⟨.init, process.managers⟩ with
    | .ok object s => .ok object { process with managers := s.world }
    | .error e s => .error (.container e) { process with managers := s.world }

def findManager (classes : Classes (List SecurityManager) Nat) : Protected (Option Nat) :=
  tryCatch (resolveNew classes (.type SecurityManager.qualname)) fun _ =>
    tryCatch (resolveNew classes (.string "security_manager")) fun _ => return none

-- One call on the manager with the number.
def onManager (ref : Nat) (operation : Operation Bool) : Protected Bool := fun process =>
  match process.managers[ref]? with
  | none => .error (.typeError "not a SecurityManager") process
  | some manager =>
      match operation manager with
      | .ok granted manager =>
          .ok granted { process with managers := process.managers.set ref manager }
      | .error e manager =>
          .error (.security e) { process with managers := process.managers.set ref manager }

-- sec_mgr.validate_runtime_check(subject, *parts)
def runtimeCheck (ref : Nat) (subject : Subject) (parts : List String) (now : String) :
    Protected Bool :=
  match parts with
  | [action, resource] => onManager ref (SecurityManager.validateRuntimeCheck subject action resource now)
  | _ => throw (.typeError
      "SecurityManager.validate_runtime_check() missing 1 required positional argument: 'resource'")

def requirePermission (classes : Classes (List SecurityManager) Nat) (permissionStr now : String)
    (arguments : Arguments) (func : Protected α) : Protected α := do
  match arguments.resolveSubject with
  | none =>
      throw (.security (.accessDenied
        ("Access Denied: No security Subject context available to evaluate permission '" ++
          permissionStr ++ "'")))
  | some subject =>
      match ← findManager classes with
      | some ref => do
          let _ ← runtimeCheck ref subject (Text.splitOnce ':' permissionStr) now
          func
      | none =>
          if PolicyEngine.init.evaluateAll subject permissionStr .empty then func
          else throw (.security (.accessDenied (SecurityManager.lacks subject permissionStr)))

end Protected

-- The manager is one that the container of the client gives out.
structure Registered (process : Process) (ref : Nat) (manager : SecurityManager) : Prop where
  registration : ∃ key reg, process.container.registrations.get? key = some reg ∧
    reg.lifetime = .singleton ∧ reg.object = some ref
  found : process.managers[ref]? = some manager

-- The body runs, from a state of the given kind, exactly when the permission is granted, and
-- otherwise the call ends in such a state with an AccessDeniedError.
def Decides (call : Protected String → Protected String) (process : Process) (granted : Bool)
    (after : Process → Prop) : Prop :=
  (granted = true → ∀ body, ∃ t, after t ∧ call body process = body t) ∧
  (granted = false → ∀ body, ∃ message t, after t ∧
    call body process = .error (.security (.accessDenied message)) t)

-- The manager with the number has one entry more, of the given time.
def Entered (ref : Nat) (manager : SecurityManager) (now : String) (process : Process) : Prop :=
  ∃ manager' entry, process.managers[ref]? = some manager' ∧
    manager.audit.Records manager'.audit entry ∧ entry.timestamp = now

section Checks

variable {others : Classes (List SecurityManager) Nat} {process : Process}

-- Whatever the client has registered, the decorator gets a manager of its own.
theorem findManager_new : Protected.findManager (withManager others) process =
    .ok (some process.managers.length)
      { process with managers := process.managers ++ [SecurityManager.init] } := by
  have hclass : (withManager others).constructor SecurityManager.qualname = SecurityManager.provider :=
    by simp [withManager]
  have hresolve : DI.Operation.resolve (withManager others) recursionLimit
      (.type SecurityManager.qualname) ⟨.init, process.managers⟩ =
        .ok (some process.managers.length) ⟨.init, process.managers ++ [SecurityManager.init]⟩ := by
    refine DI.Operation.resolve_init ?_ ?_ 999
    · rw [hclass]
      decide
    · rw [hclass]
      rfl
  refine run_tryCatch_ok ?_ _
  rw [Protected.resolveNew, hresolve]

-- The decision of a manager that nobody has told anything.
theorem validateRuntimeCheck_init (subject : Subject) (action resource now : String) : ∃ manager,
    SecurityManager.validateRuntimeCheck subject action resource now SecurityManager.init =
      if PolicyEngine.init.evaluateAll subject (action ++ ":" ++ resource) .empty then .ok true manager
      else .error (.accessDenied (SecurityManager.lacks subject (action ++ ":" ++ resource))) manager := by
  cases hg : PolicyEngine.init.evaluateAll subject (action ++ ":" ++ resource) .empty with
  | true => exact ⟨_, validate_eq hg⟩
  | false => exact ⟨_, validate_eq hg⟩

theorem runtimeCheck_new (subject : Subject) {permissionStr : String} (h : ':' ∈ permissionStr.toList)
    (now : String) : ∃ manager,
      Protected.runtimeCheck process.managers.length subject (Text.splitOnce ':' permissionStr) now
        { process with managers := process.managers ++ [SecurityManager.init] } =
      if PolicyEngine.init.evaluateAll subject permissionStr .empty then
        .ok true { process with managers := process.managers ++ [manager] }
      else
        .error (.security (.accessDenied (SecurityManager.lacks subject permissionStr)))
          { process with managers := process.managers ++ [manager] } := by
  obtain ⟨action, resource, hparts, hwhole⟩ := Text.splitOnce_of_mem h
  have hpermission : action ++ ":" ++ resource = permissionStr := hwhole
  obtain ⟨manager, hrun⟩ := validateRuntimeCheck_init subject action resource now
  refine ⟨manager, ?_⟩
  have hfound : (process.managers ++ [SecurityManager.init])[process.managers.length]? =
      some SecurityManager.init := by simp
  have hset : (process.managers ++ [SecurityManager.init]).set process.managers.length manager =
      process.managers ++ [manager] := by simp
  rw [hpermission] at hrun
  rw [hparts]
  simp only [Protected.runtimeCheck, Protected.onManager, hfound, hrun]
  cases PolicyEngine.init.evaluateAll subject permissionStr .empty with
  | true => simp only [if_true, hset]
  | false => simp only [Bool.false_eq_true, if_false, hset]

variable {arguments : Arguments} {subject : Subject} {permissionStr : String}

-- With a colon in the permission, the new manager decides; without one, its method lacks an
-- argument. In both cases the managers that there were are not touched.
theorem requirePermission_eq (hs : arguments.resolveSubject = some subject) (now : String) :
    ∃ added message, ∀ body : Protected String,
      Protected.requirePermission (withManager others) permissionStr now arguments body process =
        if ':' ∈ permissionStr.toList then
          if PolicyEngine.init.evaluateAll subject permissionStr .empty then
            body { process with managers := process.managers ++ [added] }
          else
            .error (.security (.accessDenied (SecurityManager.lacks subject permissionStr)))
              { process with managers := process.managers ++ [added] }
        else
          .error (.typeError message) { process with managers := process.managers ++ [added] } := by
  by_cases h : ':' ∈ permissionStr.toList
  · obtain ⟨manager, hcheck⟩ := @runtimeCheck_new process subject permissionStr h now
    refine ⟨manager, "", fun body => ?_⟩
    simp only [Protected.requirePermission, hs, if_pos h]
    rw [run_bind_ok findManager_new]
    cases hg : PolicyEngine.init.evaluateAll subject permissionStr .empty with
    | true =>
        rw [hg, if_pos rfl] at hcheck
        exact run_bind_ok hcheck _
    | false =>
        rw [hg, if_neg Bool.false_ne_true] at hcheck
        exact run_bind_error hcheck _
  · obtain ⟨message, hcheck⟩ : ∃ message, Protected.runtimeCheck process.managers.length subject
        (Text.splitOnce ':' permissionStr) now
        { process with managers := process.managers ++ [SecurityManager.init] } =
          .error (.typeError message)
            { process with managers := process.managers ++ [SecurityManager.init] } := by
      rw [Text.splitOnce_of_notMem h]
      exact ⟨_, rfl⟩
    refine ⟨SecurityManager.init, message, fun body => ?_⟩
    simp only [Protected.requirePermission, hs, if_neg h]
    rw [run_bind_ok findManager_new]
    exact run_bind_error hcheck _

-- The answer is the one of another decision exactly when the permission has a colon and an engine
-- without roles and without further policies gives that answer.
theorem decides_iff (hs : arguments.resolveSubject = some subject) (granted : Bool) (now : String) :
    Decides (Protected.requirePermission (withManager others) permissionStr now arguments) process
        granted (fun _ => True) ↔
      ':' ∈ permissionStr.toList ∧
        PolicyEngine.init.evaluateAll subject permissionStr .empty = granted := by
  obtain ⟨added, message, hrun⟩ :=
    @requirePermission_eq others process arguments subject permissionStr hs now
  constructor
  · rintro ⟨hgrant, hdeny⟩
    -- A body that returns tells a run of it from every refusal.
    cases granted with
    | true =>
        obtain ⟨t, -, ht⟩ := hgrant rfl (pure "")
        rw [hrun] at ht
        split at ht
        · rename_i hcolon
          refine ⟨hcolon, Bool.eq_true_of_not_eq_false fun hg => ?_⟩
          rw [hg, if_neg Bool.false_ne_true] at ht
          cases ht
        · cases ht
    | false =>
        obtain ⟨_, t, -, ht⟩ := hdeny rfl (pure "")
        rw [hrun] at ht
        split at ht
        · rename_i hcolon
          refine ⟨hcolon, Bool.eq_false_of_not_eq_true fun hg => ?_⟩
          rw [hg, if_pos rfl] at ht
          cases ht
        · cases ht
  · rintro ⟨hcolon, rfl⟩
    constructor
    · intro hg body
      refine ⟨{ process with managers := process.managers ++ [added] }, trivial, ?_⟩
      rw [hrun, if_pos hcolon, if_pos hg]
    · intro hg body
      refine ⟨SecurityManager.lacks subject permissionStr,
        { process with managers := process.managers ++ [added] }, trivial, ?_⟩
      rw [hrun, if_pos hcolon, hg, if_neg Bool.false_ne_true]

theorem not_entered {ref : Nat} {manager added : SecurityManager} {now : String}
    (hfound : process.managers[ref]? = some manager)
    (hnow : ∀ entry ∈ manager.audit.history, entry.timestamp ≠ now) :
    ¬Entered ref manager now { process with managers := process.managers ++ [added] } := by
  rintro ⟨manager', entry, hfound', hrecords, htime⟩
  have hlt : ref < process.managers.length := (List.getElem?_eq_some_iff.mp hfound).1
  have hsame : manager' = manager := by
    rw [List.getElem?_append_left hlt, hfound] at hfound'
    exact (Option.some.inj hfound').symm
  subst hsame
  refine hnow entry ?_ htime
  rcases Nat.lt_or_ge manager'.audit.history.length manager'.audit.maxHistorySize with hw | he
  · rw [hrecords.within hw]
    simp
  · rw [hrecords.exceeded he]
    simp

-- There is always a later moment than those noted.
theorem exists_later (history : List AuditEntry) : ∃ now, ∀ entry ∈ history, entry.timestamp ≠ now := by
  obtain ⟨now, hnow⟩ := Infinite.exists_notMem_finset (history.map AuditEntry.timestamp).toFinset
  refine ⟨now, fun entry he heq => hnow ?_⟩
  rw [List.mem_toFinset, ← heq]
  exact List.mem_map_of_mem he

-- No decision leaves an entry with the manager.
theorem not_decides_entered {ref : Nat} {manager : SecurityManager}
    (hfound : process.managers[ref]? = some manager) (hs : arguments.resolveSubject = some subject)
    {now : String} (hnow : ∀ entry ∈ manager.audit.history, entry.timestamp ≠ now) (granted : Bool) :
    ¬Decides (Protected.requirePermission (withManager others) permissionStr now arguments) process
      granted (Entered ref manager now) := by
  obtain ⟨added, message, hrun⟩ :=
    @requirePermission_eq others process arguments subject permissionStr hs now
  have hend : ∀ t, Entered ref manager now t →
      t ≠ { process with managers := process.managers ++ [added] } := by
    rintro t ht rfl
    exact not_entered hfound hnow ht
  have hstate := hrun (pure "")
  rintro ⟨hgrant, hdeny⟩
  cases granted with
  | true =>
      obtain ⟨t, hentered, ht⟩ := hgrant rfl (pure "")
      rw [ht] at hstate
      split at hstate
      · split at hstate
        · injection hstate with _ heq
          exact hend t hentered heq
        · cases hstate
      · cases hstate
  | false =>
      obtain ⟨_, t, hentered, ht⟩ := hdeny rfl (pure "")
      rw [ht] at hstate
      split at hstate
      · split at hstate
        · cases hstate
        · injection hstate with _ heq
          exact hend t hentered heq
      · injection hstate with _ heq
        exact hend t hentered heq

end Checks

-- Whatever the permission, the subject and the registered manager: at no call does the decorator
-- decide as this manager does and leave an entry with it; its answers alone are the manager's exactly
-- when the permission has a colon and the roles and policies of the manager make no difference.
theorem require_permission_never_central (others : Classes (List SecurityManager) Nat)
    (permissionStr : String) (arguments : Arguments) (process : Process) (subject : Subject) (ref : Nat)
    (manager : SecurityManager) (hs : arguments.resolveSubject = some subject)
    (h : Registered process ref manager) :
    (¬∀ now, Decides (Protected.requirePermission (withManager others) permissionStr now arguments)
      process (manager.policyEngine.evaluateAll subject permissionStr manager.roles)
      (Entered ref manager now)) ∧
    ∀ now, Decides (Protected.requirePermission (withManager others) permissionStr now arguments)
      process (manager.policyEngine.evaluateAll subject permissionStr manager.roles) (fun _ => True) ↔
        ':' ∈ permissionStr.toList ∧ PolicyEngine.init.evaluateAll subject permissionStr .empty =
          manager.policyEngine.evaluateAll subject permissionStr manager.roles := by
  refine ⟨fun hall => ?_, fun now => decides_iff hs _ now⟩
  obtain ⟨now, hnow⟩ := exists_later manager.audit.history
  exact not_decides_entered h.found hs hnow _ (hall now)

-- A process whose client has registered a manager with one role, and a subject with this role.
def operators : SecurityManager :=
  managerWith (Dict.empty.set "operator" ⟨"operator", [.init "jobs:*"]⟩) .empty ⟨[], 200⟩

def operatorProcess : Process where
  managers := [operators]
  container := DIContainer.init.registerInstance (.type SecurityManager.qualname) (some 0)

def operatorSubject : Subject := ⟨"user-1", "user", {"operator"}, .empty, []⟩

def onlyManager : Classes (List SecurityManager) Nat where
  issubclass sub super := sub == super
  constructor _ := SecurityManager.provider

theorem operatorProcess_registered : Registered operatorProcess 0 operators where
  registration := ⟨.type SecurityManager.qualname, _, rfl, rfl, rfl⟩
  found := rfl

theorem operator_never_central :
    ¬∀ now, Decides (Protected.requirePermission (withManager onlyManager) "jobs:run" now
      ⟨some operatorSubject, [], none⟩) operatorProcess
      (operators.policyEngine.evaluateAll operatorSubject "jobs:run" operators.roles)
      (Entered 0 operators now) :=
  (require_permission_never_central onlyManager "jobs:run" ⟨some operatorSubject, [], none⟩
    operatorProcess operatorSubject 0 operators rfl operatorProcess_registered).1

-- The manager grants what the decorator refuses.
theorem operator_refused : Registered operatorProcess 0 operators ∧
    operators.policyEngine.evaluateAll operatorSubject "jobs:run" operators.roles = true ∧
    (∃ message t, Protected.requirePermission (withManager onlyManager) "jobs:run" "now"
      ⟨some operatorSubject, [], none⟩ (pure "done") operatorProcess =
        .error (.security (.accessDenied message)) t) ∧
    ¬Decides (Protected.requirePermission (withManager onlyManager) "jobs:run" "now"
      ⟨some operatorSubject, [], none⟩) operatorProcess
      (operators.policyEngine.evaluateAll operatorSubject "jobs:run" operators.roles) fun _ => True := by
  have hgranted : operators.policyEngine.evaluateAll operatorSubject "jobs:run" operators.roles = true := by
    decide +kernel
  have hrefused : PolicyEngine.init.evaluateAll operatorSubject "jobs:run" .empty = false := by
    decide +kernel
  have hcolon : ':' ∈ "jobs:run".toList := by simp
  have hs : Arguments.resolveSubject ⟨some operatorSubject, [], none⟩ = some operatorSubject := rfl
  refine ⟨operatorProcess_registered, hgranted, ?_, ?_⟩
  · obtain ⟨added, message, hrun⟩ :=
      @requirePermission_eq onlyManager operatorProcess _ _ "jobs:run" hs "now"
    have hdone := hrun (pure "done")
    rw [if_pos hcolon, hrefused, if_neg Bool.false_ne_true] at hdone
    exact ⟨_, _, hdone⟩
  · rw [hgranted, decides_iff hs]
    rintro ⟨-, hother⟩
    rw [hrefused] at hother
    cases hother

end YasinCore.Security
