import YasinCore.Security.Grants

namespace YasinCore.Security

open YasinCore.Library

-- The key is the only one of which the registered subjects know: its subject is registered, and no
-- other registered subject stands for an API key.
structure Enrolled (s : SecurityManager) (apiKey : String) : Prop where
  given : apiKey ≠ ""
  known : SecurityManager.apiSubjectId apiKey ∈ s.subjects
  only : ∀ other, other ≠ "" → SecurityManager.apiSubjectId other ∈ s.subjects →
    SecurityManager.apiSubjectId other = SecurityManager.apiSubjectId apiKey

-- The call raises AuthenticationError, and nothing about subjects and roles is different after it.
def Unauthenticated (operation : Operation Bool) (s : SecurityManager) : Prop :=
  ∃ message t, operation s = .error (.authentication message) t ∧ t.subjects = s.subjects ∧
    t.roles = s.roles

variable {s : SecurityManager} {apiKey other : String}

theorem apiSubjectId_given (h : apiKey ≠ "") :
    SecurityManager.apiSubjectId apiKey = "api_key:" ++ (apiKey.take 8).toString := if_neg h

-- Two keys stand for the same subject exactly when they start with the same eight characters.
theorem apiSubjectId_eq_iff (h : apiKey ≠ "") (ho : other ≠ "") :
    SecurityManager.apiSubjectId other = SecurityManager.apiSubjectId apiKey ↔
      (other.take 8).toString = (apiKey.take 8).toString := by
  rw [apiSubjectId_given h, apiSubjectId_given ho]
  constructor
  · intro he
    have hlists := congrArg String.toList he
    rw [String.toList_append, String.toList_append] at hlists
    exact String.toList_injective (List.append_cancel_left hlists)
  · intro he
    rw [he]

-- A validation grants or denies; it never questions who is asking.
theorem validate_authenticated (subject : Subject) (permission : String) (entry : AuditEntry)
    (denied : String) (s : SecurityManager) :
    ¬Unauthenticated (SecurityManager.validate subject permission entry denied) s := by
  rintro ⟨message, t, he, -⟩
  simp only [SecurityManager.validate, SecurityManager.logEvent, run_get_bind, run_modify_bind] at he
  split at he
  · cases he
  · cases he

theorem unauthenticated_iff (upper : String → String) (endpoint method now : String) :
    Unauthenticated (SecurityManager.validateApiAccess upper apiKey endpoint method now) s ↔
      s.apiSubject apiKey = none := by
  cases hs : s.apiSubject apiKey with
  | none =>
      refine iff_of_true ?_ rfl
      have hrefused : ∃ t, SecurityManager.validateApiAccess upper apiKey endpoint method now s =
          .error (.authentication "Authentication Failed: Invalid API Key") t ∧
            t.subjects = s.subjects ∧ t.roles = s.roles := by
        simp only [SecurityManager.validateApiAccess, run_get_bind, hs]
        exact ⟨_, rfl, rfl, rfl⟩
      exact ⟨_, hrefused⟩
  | some subject =>
      refine iff_of_false (fun hrefused => ?_) (Option.some_ne_none subject)
      unfold Unauthenticated at hrefused
      rw [validateApiAccess_known hs] at hrefused
      exact validate_authenticated _ _ _ _ _ hrefused

theorem apiSubject_eq_none_iff (h : Enrolled s apiKey) (ho : other ≠ "") :
    s.apiSubject other = none ↔ (other.take 8).toString ≠ (apiKey.take 8).toString := by
  have hlookup : s.apiSubject other = s.subjects.get? (SecurityManager.apiSubjectId other) := by
    rw [SecurityManager.apiSubject, if_neg ho, Option.or_none]
  rw [hlookup, Dict.get?_eq_none_iff, ne_eq, ← apiSubjectId_eq_iff h.given ho, not_iff_not]
  constructor
  · exact h.only other ho
  · intro he
    rw [he]
    exact h.known

-- Another key is turned away exactly when it differs in the first eight characters.
theorem distinct_keys_rejected_iff (s : SecurityManager) (apiKey other : String) (h : Enrolled s apiKey)
    (ho : other ≠ "") (upper : String → String) (endpoint method now : String) :
    Unauthenticated (SecurityManager.validateApiAccess upper other endpoint method now) s ↔
      (other.take 8).toString ≠ (apiKey.take 8).toString := by
  rw [unauthenticated_iff, apiSubject_eq_none_iff h ho]

-- A manager that knows one key, whose subject may do everything.
def oneKey : SecurityManager :=
  managerWith .empty (Dict.empty.set "api_key:sk-live-" ⟨"api_key:sk-live-", "api", ∅, .empty, [.init "*"]⟩)
    ⟨[], 200⟩

theorem oneKey_enrolled : Enrolled oneKey "sk-live-first" where
  given := by decide
  known := by decide +kernel
  only := fun other ho hm => by
    rcases (Dict.mem_set _ _ _ _).mp hm with he | he
    · rw [he]
      decide +kernel
    · cases he

theorem distinct_key_rejected :
    Unauthenticated (SecurityManager.validateApiAccess id "sk-test-first" "/jobs" "GET" "now") oneKey :=
  (distinct_keys_rejected_iff oneKey "sk-live-first" "sk-test-first" oneKey_enrolled (by decide) id
    "/jobs" "GET" "now").mpr (by decide +kernel)

-- Any other key with the same beginning is granted what the enrolled one is.
theorem similar_key_granted : Enrolled oneKey "sk-live-first" ∧ "sk-live-second" ≠ "sk-live-first" ∧
    Grants (SecurityManager.validateApiAccess id "sk-live-second" "/jobs" "GET" "now") oneKey := by
  have hsubject : oneKey.apiSubject "sk-live-second" =
      some ⟨"api_key:sk-live-", "api", ∅, .empty, [.init "*"]⟩ := by
    decide +kernel
  have hgranted : oneKey.policyEngine.evaluateAll ⟨"api_key:sk-live-", "api", ∅, .empty, [.init "*"]⟩
      ("api:" ++ "/jobs" ++ ":" ++ id "GET") oneKey.roles = true := by
    decide +kernel
  refine ⟨oneKey_enrolled, by decide, ?_⟩
  rw [Grants, validateApiAccess_known hsubject]
  exact ⟨_, validate_eq hgranted⟩

end YasinCore.Security
