import YasinCore.Library.Hoare
import YasinCore.Security.Manager

namespace YasinCore.Security

open YasinCore.Library

-- The request, taken literally, belongs to the pattern of the permission.
def Permission.Covers (permission : Permission) (required : String) : Prop :=
  (Text.strip required).toList ∈ Glob.language permission.name

-- The request, taken as a pattern, covers the name of the permission.
def Permission.CoveredBy (permission : Permission) (required : String) : Prop :=
  permission.name.toList ∈ Glob.language (Text.strip required)

-- The permissions a subject holds, its own and those of its roles.
def Holds (subject : Subject) (registry : Dict String Role) (permission : Permission) : Prop :=
  permission ∈ subject.directPermissions ∨ ∃ name ∈ subject.roles, ∃ role,
    DefaultRBACPolicy.roleObject subject registry name = some role ∧ permission ∈ role.permissions

def Covered (subject : Subject) (registry : Dict String Role) (required : String) : Prop :=
  ∃ permission, Holds subject registry permission ∧ permission.Covers required

-- The request is a pattern for the name of something that the subject holds.
def Enumerates (subject : Subject) (registry : Dict String Role) (required : String) : Prop :=
  ∃ permission, Holds subject registry permission ∧ permission.CoveredBy required

-- A manager with the policy it starts with.
def managerWith (roles : Dict String Role) (subjects : Dict String Subject) (audit : AuditLogger) :
    SecurityManager :=
  ⟨.init, audit, roles, subjects⟩

def Grants (operation : Operation Bool) (s : SecurityManager) : Prop :=
  ∃ t, operation s = .ok true t

section Matching

variable {permission : Permission} {required : String}

theorem matches_iff :
    permission.matches required ↔ permission.Covers required ∨ permission.CoveredBy required := by
  rw [Permission.matches, Bool.or_eq_true, Glob.fnmatchcase_iff, Glob.fnmatchcase_iff]
  exact Iff.rfl

-- A request without special characters is no pattern: it covers the name that it is.
theorem coveredBy_plain (h : Glob.Plain (Text.strip required)) :
    permission.CoveredBy required ↔ permission.name = Text.strip required := by
  rw [Permission.CoveredBy, ← Glob.fnmatchcase_iff, Glob.fnmatchcase_plain h]

-- A literal request that covers a held name is covered by it.
theorem covers_of_coveredBy_plain (h : Glob.Plain (Text.strip required))
    (hc : permission.CoveredBy required) : permission.Covers required := by
  have hname := (coveredBy_plain h).mp hc
  rw [Permission.Covers, hname, ← Glob.fnmatchcase_iff, Glob.fnmatchcase_plain h]

end Matching

section Policy

variable {subject : Subject} {registry : Dict String Role} {required : String}

theorem evaluate_iff : DefaultRBACPolicy.evaluate subject required registry ↔
    ∃ permission, Holds subject registry permission ∧ permission.matches required := by
  have hrole (name : String) : DefaultRBACPolicy.roleGrants subject registry required name ↔
      ∃ role, DefaultRBACPolicy.roleObject subject registry name = some role ∧
        ∃ permission ∈ role.permissions, permission.matches required := by
    unfold DefaultRBACPolicy.roleGrants
    cases DefaultRBACPolicy.roleObject subject registry name with
    | none => simp
    | some role => simp [Role.hasPermission]
  simp only [DefaultRBACPolicy.evaluate, Bool.or_eq_true, List.any_eq_true, decide_eq_true_eq, hrole]
  constructor
  · rintro (⟨permission, hp, hm⟩ | ⟨name, hn, role, hr, permission, hp, hm⟩)
    · exact ⟨permission, .inl hp, hm⟩
    · exact ⟨permission, .inr ⟨name, hn, role, hr, hp⟩, hm⟩
  · rintro ⟨permission, hp | ⟨name, hn, role, hr, hp⟩, hm⟩
    · exact .inl ⟨permission, hp, hm⟩
    · exact .inr ⟨name, hn, role, hr, permission, hp, hm⟩

theorem evaluateAll_iff : PolicyEngine.init.evaluateAll subject required registry ↔
    Covered subject registry required ∨ Enumerates subject registry required := by
  have hone : PolicyEngine.init.evaluateAll subject required registry =
      DefaultRBACPolicy.evaluate subject required registry := Bool.or_false _
  rw [hone, evaluate_iff]
  simp only [matches_iff, and_or_left, exists_or]
  exact Iff.rfl

-- Requests without special characters are granted within the held patterns only.
theorem evaluateAll_plain (h : Glob.Plain (Text.strip required)) :
    PolicyEngine.init.evaluateAll subject required registry ↔ Covered subject registry required := by
  rw [evaluateAll_iff]
  refine or_iff_left_of_imp ?_
  rintro ⟨permission, hp, hc⟩
  exact ⟨permission, hp, covers_of_coveredBy_plain h hc⟩

end Policy

section Validate

variable {roles : Dict String Role} {subjects : Dict String Subject} {audit : AuditLogger}
  {subject : Subject} {permission denied : String} {entry : AuditEntry}

-- The outcome of a validation, and the one audit entry it leaves.
theorem validate_eq {granted : Bool}
    (hg : PolicyEngine.init.evaluateAll subject permission roles = granted) :
    SecurityManager.validate subject permission entry denied (managerWith roles subjects audit) =
      if granted then
        .ok true (managerWith roles subjects (audit.logEvent { entry with result := "GRANTED" }))
      else .error (.accessDenied denied)
        (managerWith roles subjects (audit.logEvent { entry with result := "DENIED" })) := by
  have hengine : (managerWith roles subjects audit).policyEngine = .init := rfl
  have hroles : (managerWith roles subjects audit).roles = roles := rfl
  simp only [SecurityManager.validate, SecurityManager.logEvent, run_get_bind, run_modify_bind]
  rw [hengine, hroles, hg]
  cases granted with
  | true => rfl
  | false => rfl

-- A validation grants exactly what the policy grants, whatever it logs.
theorem validate_grants_iff :
    Grants (SecurityManager.validate subject permission entry denied) (managerWith roles subjects audit) ↔
      Covered subject roles permission ∨ Enumerates subject roles permission := by
  rw [← evaluateAll_iff]
  cases hg : PolicyEngine.init.evaluateAll subject permission roles with
  | true => exact iff_of_true ⟨_, validate_eq hg⟩ rfl
  | false =>
      refine iff_of_false ?_ Bool.false_ne_true
      rintro ⟨t, ht⟩
      rw [validate_eq hg] at ht
      cases ht

-- So it stays within the held patterns exactly when it does so for what the request enumerates.
theorem validate_within_iff :
    (Grants (SecurityManager.validate subject permission entry denied) (managerWith roles subjects audit) →
      Covered subject roles permission) ↔
      (Enumerates subject roles permission → Covered subject roles permission) := by
  rw [validate_grants_iff, or_imp, and_iff_right_of_imp fun _ => id]

end Validate

section ApiAccess

variable {roles : Dict String Role} {subjects : Dict String Subject} {audit : AuditLogger}

theorem validateApiAccess_known {upper : String → String} {apiKey endpoint method now : String}
    {s : SecurityManager} {subject : Subject} (h : s.apiSubject apiKey = some subject) :
    SecurityManager.validateApiAccess upper apiKey endpoint method now s =
      SecurityManager.validate subject ("api:" ++ endpoint ++ ":" ++ upper method)
        { timestamp := now, action := "api_access", subjectId := subject.id, subjectType := "api",
          resource := "api:" ++ endpoint ++ ":" ++ method, result := "",
          details := "Evaluated permission: " ++ ("api:" ++ endpoint ++ ":" ++ upper method) }
        ("Access Denied: API Key '" ++ SecurityManager.apiSubjectId apiKey ++
          "' lacks permission for " ++ method ++ " on " ++ endpoint) s := by
  simp only [SecurityManager.validateApiAccess, run_get_bind, h]

-- An unknown key is refused before any policy is asked.
theorem validateApiAccess_unknown (upper : String → String) (endpoint method now : String)
    {apiKey : String} {s : SecurityManager} (h : s.apiSubject apiKey = none) :
    ∃ t, SecurityManager.validateApiAccess upper apiKey endpoint method now s =
      .error (.authentication "Authentication Failed: Invalid API Key") t := by
  simp only [SecurityManager.validateApiAccess, run_get_bind, h]
  exact ⟨_, rfl⟩

theorem validateApiAccess_within_iff (upper : String → String) (apiKey endpoint method now : String) :
    (Grants (SecurityManager.validateApiAccess upper apiKey endpoint method now)
        (managerWith roles subjects audit) →
      ∃ subject, (managerWith roles subjects audit).apiSubject apiKey = some subject ∧
        Covered subject roles ("api:" ++ endpoint ++ ":" ++ upper method)) ↔
      ∀ subject, (managerWith roles subjects audit).apiSubject apiKey = some subject →
        Enumerates subject roles ("api:" ++ endpoint ++ ":" ++ upper method) →
          Covered subject roles ("api:" ++ endpoint ++ ":" ++ upper method) := by
  cases hs : (managerWith roles subjects audit).apiSubject apiKey with
  | none =>
      obtain ⟨refused, hrefused⟩ := validateApiAccess_unknown upper endpoint method now hs
      refine iff_of_true (fun ⟨t, ht⟩ => ?_) (by simp)
      rw [hrefused] at ht
      cases ht
  | some subject =>
      rw [Grants, validateApiAccess_known hs, ← Grants]
      simp only [Option.some.injEq, exists_eq_left', forall_eq']
      exact validate_within_iff

end ApiAccess

-- For every permission, subject, registry and request: a grant stays within the pattern of something
-- held exactly when the request does not, read as a pattern itself, cover a held name without being
-- covered.
theorem grants_within_patterns_iff (roles : Dict String Role) (subjects : Dict String Subject)
    (audit : AuditLogger) (subject : Subject) (upper : String → String) (now : String) :
    (∀ (permission : Permission) (required : String),
      (permission.matches required → permission.Covers required) ↔
        (permission.CoveredBy required → permission.Covers required)) ∧
    (∀ serviceName action,
      (Grants (SecurityManager.validateServiceAccess subject serviceName action now)
          (managerWith roles subjects audit) →
        Covered subject roles ("service:" ++ serviceName ++ ":" ++ action)) ↔
        (Enumerates subject roles ("service:" ++ serviceName ++ ":" ++ action) →
          Covered subject roles ("service:" ++ serviceName ++ ":" ++ action))) ∧
    (∀ pluginName action,
      (Grants (SecurityManager.validatePluginAccess subject pluginName action now)
          (managerWith roles subjects audit) →
        Covered subject roles ("plugin:" ++ pluginName ++ ":" ++ action)) ↔
        (Enumerates subject roles ("plugin:" ++ pluginName ++ ":" ++ action) →
          Covered subject roles ("plugin:" ++ pluginName ++ ":" ++ action))) ∧
    (∀ action resource,
      (Grants (SecurityManager.validateRuntimeCheck subject action resource now)
          (managerWith roles subjects audit) →
        Covered subject roles (action ++ ":" ++ resource)) ↔
        (Enumerates subject roles (action ++ ":" ++ resource) →
          Covered subject roles (action ++ ":" ++ resource))) ∧
    ∀ apiKey endpoint method,
      (Grants (SecurityManager.validateApiAccess upper apiKey endpoint method now)
          (managerWith roles subjects audit) →
        ∃ subject, (managerWith roles subjects audit).apiSubject apiKey = some subject ∧
          Covered subject roles ("api:" ++ endpoint ++ ":" ++ upper method)) ↔
        ∀ subject, (managerWith roles subjects audit).apiSubject apiKey = some subject →
          Enumerates subject roles ("api:" ++ endpoint ++ ":" ++ upper method) →
            Covered subject roles ("api:" ++ endpoint ++ ":" ++ upper method) := by
  refine ⟨fun permission required => ?_, fun _ _ => validate_within_iff, fun _ _ => validate_within_iff,
    fun _ _ => validate_within_iff, fun _ _ _ => validateApiAccess_within_iff ..⟩
  rw [matches_iff, or_imp, and_iff_right_of_imp fun _ => id]

-- Who may access one service is granted access to the service named by the star.
def storageUser : Subject := ⟨"user-1", "user", ∅, .empty, [.init "service:storage:access"]⟩

theorem star_request_granted :
    Grants (SecurityManager.validateServiceAccess storageUser "*" "access" "now")
        (managerWith .empty .empty ⟨[], 200⟩) ∧
      ¬Covered storageUser .empty ("service:" ++ "*" ++ ":" ++ "access") := by
  refine ⟨⟨_, rfl⟩, ?_⟩
  rintro ⟨permission, hp | ⟨name, hn, _⟩, hc⟩
  · obtain rfl := List.mem_singleton.mp hp
    rw [Permission.Covers, ← Glob.fnmatchcase_iff] at hc
    revert hc
    decide +kernel
  · exact absurd hn (Finset.notMem_empty name)

end YasinCore.Security
