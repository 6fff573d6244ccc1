import YasinCore.Compatibility.Suffixes

namespace YasinCore.Compatibility

-- The numbers up to the first positive one of the requirement are the same.
def KeepsBoundary (required core : VersionText) : Prop :=
  (0 < required.major → core.major = required.major) ∧
  (required.major = 0 → 0 < required.minor → core.major = 0 ∧ core.minor = required.minor) ∧
  (required.major = 0 → required.minor = 0 → 0 < required.patch → core.numbers = required.numbers)

-- The core is a prerelease of the version at which the range ends.
def BeforeLimit (required : VersionText) (core : SuffixedText) : Prop :=
  core.release.numbers = required.limit.numbers ∧ core.prerelease ≠ ""

section Order

variable {a b c x y z : Nat} {raw raw' prerelease : String}

-- A version comes before a release if its numbers do, and as a prerelease of it.
theorem lt_release_iff : (⟨raw, a, b, c, prerelease⟩ : Version).asTuple <
    (⟨raw', x, y, z, ""⟩ : Version).asTuple ↔
      Precedes (a, b, c) (x, y, z) ∨ [a, b, c] = [x, y, z] ∧ prerelease ≠ "" := by
  by_cases hempty : prerelease = ""
  · rw [hempty, asTuple_lt_iff]
    simp
  · simp only [Precedes, Version.asTuple, Prod.Lex.toLex_lt_toLex, hempty, decide_false, decide_true,
      Bool.false_lt_true, true_or, and_true, List.cons.injEq, ne_eq, not_false_eq_true]
    omega

theorem release_le_iff : (⟨raw', x, y, z, ""⟩ : Version).asTuple ≤
    (⟨raw, a, b, c, prerelease⟩ : Version).asTuple ↔
      Precedes (x, y, z) (a, b, c) ∨ [a, b, c] = [x, y, z] ∧ prerelease = "" := by
  rw [← not_lt, lt_release_iff]
  unfold Precedes
  simp only [List.cons.injEq, and_true]
  by_cases hempty : prerelease = ""
  · simp only [hempty, ne_eq, not_true_eq_false, and_false, or_false, and_true]
    omega
  · simp only [hempty, ne_eq, not_false_eq_true, and_false, or_false, and_true]
    omega

end Order

section Range

variable {required : VersionText} {core : SuffixedText}

theorem limit_numbers (v : VersionText) : v.limit.numbers =
    if 0 < v.major then [v.major + 1, 0, 0]
    else if 0 < v.minor then [0, v.minor + 1, 0]
    else [0, 0, v.patch + 1] := by
  unfold VersionText.limit
  split_ifs
  all_goals simp [VersionText.numbers, VersionText.major, VersionText.minor, VersionText.patch,
    VersionText.parts, Numeral.value_ofNat]

-- What the checker answers
theorem isCompatible_caret_suffixed : isCompatible ("^" ++ required.text) core.text =
    .ok (required.version.asTuple ≤ core.version.asTuple ∧
      core.version.asTuple < required.limit.version.asTuple) := by
  have hdrop : (("^" ++ required.text).drop 1).toString = required.text := drop_append rfl
  have hparse (w : VersionText) : Version.parse w.text = .ok w.version := parse_text
  have hbind (w : Version) (next : Version → Except VersionError Bool) :
      (Except.ok w >>= next) = next w := rfl
  unfold isCompatible
  rw [required.strip_append isspace_caret, if_neg caret_not_wildcard]
  dsimp only
  rw [parse_suffixed, hbind, caret_startsWith, if_pos rfl, hdrop, required.strip_text, hparse, hbind,
    upperLimit_version, hparse, hbind]
  rfl

-- The core lies in the range: its numbers do, or it is a prerelease of the end.
theorem accepted_iff : isCompatible ("^" ++ required.text) core.text = .ok true ↔
    required.version.asTuple ≤ core.version.asTuple ∧
      (core.release.version.asTuple < required.limit.version.asTuple ∨ BeforeLimit required core) := by
  rw [isCompatible_caret_suffixed, Except.ok.injEq, decide_eq_true_iff]
  unfold SuffixedText.version VersionText.version BeforeLimit VersionText.numbers
  rw [lt_release_iff, asTuple_lt_iff]

theorem keeps_of_before_limit (hle : required.version.asTuple ≤ core.version.asTuple)
    (hlt : core.release.version.asTuple < required.limit.version.asTuple) :
    KeepsBoundary required core.release := by
  rw [before_limit_iff] at hlt
  unfold SuffixedText.version VersionText.version at hle
  rw [release_le_iff] at hle
  unfold KeepsBoundary VersionText.numbers
  unfold Precedes at hle
  simp only [List.cons.injEq, and_true] at hle ⊢
  split_ifs at hlt <;> omega

-- A prerelease of the end of the range is in the range, whatever comes after the hyphen.
theorem le_of_beforeLimit (h : BeforeLimit required core) :
    required.version.asTuple ≤ core.version.asTuple := by
  unfold SuffixedText.version VersionText.version
  have hnumbers := h.1
  rw [limit_numbers, VersionText.numbers] at hnumbers
  rw [release_le_iff]
  unfold Precedes
  split_ifs at hnumbers <;> simp only [List.cons.injEq, and_true] at hnumbers ⊢ <;> omega

theorem not_keeps_of_beforeLimit (hpositive : required.numbers ≠ [0, 0, 0])
    (h : BeforeLimit required core) : ¬KeepsBoundary required core.release := by
  have hnumbers := h.1
  rw [limit_numbers, VersionText.numbers] at hnumbers
  unfold KeepsBoundary
  unfold VersionText.numbers at hpositive ⊢
  simp only [ne_eq, List.cons.injEq, and_true] at hpositive
  split_ifs at hnumbers <;> simp only [List.cons.injEq, and_true] at hnumbers ⊢ <;> omega

end Range

-- What a range takes is never below the required version. It is on this side of the boundary, for every
-- core but the prereleases of the version at which the range ends.
theorem caret_keeps_boundary_iff (required : VersionText) (core : SuffixedText) :
    (isCompatible ("^" ++ required.text) core.text = .ok true →
      ¬core.version.asTuple < required.version.asTuple ∧ KeepsBoundary required core.release) ↔
    (required.numbers ≠ [0, 0, 0] → ¬BeforeLimit required core) := by
  rw [accepted_iff, not_lt]
  refine ⟨fun h hpositive hbefore => ?_, fun h ⟨hle, hin⟩ => ⟨hle, ?_⟩⟩
  · have hle := le_of_beforeLimit hbefore
    exact not_keeps_of_beforeLimit hpositive hbefore (h ⟨hle, .inr hbefore⟩).2
  · rcases hin with hlt | hbefore
    · exact keeps_of_before_limit hle hlt
    · by_cases hpositive : required.numbers = [0, 0, 0]
      · simp only [VersionText.numbers, List.cons.injEq, and_true] at hpositive
        unfold KeepsBoundary
        omega
      · exact absurd hbefore (h hpositive)

-- ^1.2.3 takes 2.0.0-alpha.
theorem caret_takes_next_major : ¬∀ (required : VersionText) (core : SuffixedText),
    isCompatible ("^" ++ required.text) core.text = .ok true →
      ¬core.version.asTuple < required.version.asTuple ∧ KeepsBoundary required core.release := by
  intro h
  let required : VersionText := .three (.ofNat 1) (.ofNat 2) (.ofNat 3)
  let core : SuffixedText := ⟨.three (.ofNat 2) (.ofNat 0) (.ofNat 0), some "alpha"⟩
  have htaken : isCompatible ("^" ++ required.text) core.text = .ok true := by decide +kernel
  exact absurd ((h required core htaken).2.1 (by decide)) (by decide)

end YasinCore.Compatibility
