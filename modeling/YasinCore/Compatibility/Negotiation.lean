import Mathlib.Data.List.MinMax
import YasinCore.Compatibility.Suffixes
import YasinCore.Plugins.Validation

namespace YasinCore.Compatibility

open YasinCore.Library
open Plugins (Ascii)

def Version.str (v : Version) : String :=
  let release := toString v.major ++ "." ++ toString v.minor ++ "." ++ toString v.patch
  if v.prerelease ≠ "" then release ++ "-" ++ v.prerelease else release

inductive NegotiationError
  | invalidVersion (e : VersionError)
  | versionMismatch (clientVersionExpr : String) (serverVersions : List String)

-- The versions of the server that meet the requirement
def compatibleVersions (clientVersionExpr : String) : List String → Except VersionError (List Version)
  | [] => return []
  | sv :: rest => do
      if ← isCompatible clientVersionExpr sv then
        let version ← Version.parse sv
        return version :: (← compatibleVersions clientVersionExpr rest)
      compatibleVersions clientVersionExpr rest

-- Of several highest versions max gives the first.
def negotiate (clientVersionExpr : String) (serverVersions : List String) :
    Except NegotiationError String :=
  match compatibleVersions clientVersionExpr serverVersions with
  | .error e => .error (.invalidVersion e)
  | .ok compatible =>
      match compatible.argmax Version.asTuple with
      | none => .error (.versionMismatch clientVersionExpr serverVersions)
      | some best => .ok best.str

section Parsing

variable {s t expr : String} {v w : Version}

theorem parsePart_ascii {part : Option String} (h : ∀ p ∈ part, Ascii p) : ∃ n, parsePart part = .ok n := by
  cases part with
  | none => exact ⟨0, rfl⟩
  | some part =>
      have hdecimal : ∀ c ∈ part.toList.filter (fun c => (Text.decimal? c).isSome), c.isDigit := by
        intro c hc
        obtain ⟨hmem, hdigit⟩ := List.mem_filter.mp hc
        refine Text.isDigit_of_ascii (h part rfl c hmem) ?_
        rw [Text.isdigit, hdigit, Bool.true_or]
      have hnonempty (hd : Text.allDigits part ||
            part.toList.filter (fun c => (Text.decimal? c).isSome) ≠ []) :
          part.toList.filter (fun c => (Text.decimal? c).isSome) ≠ [] := by
        rcases Bool.or_eq_true_iff.mp hd with hd | hd
        · obtain ⟨hne, hall⟩ := Bool.and_eq_true_iff.mp hd
          have hne : part.toList ≠ [] := by simpa using hne
          have hkept : part.toList.filter (fun c => (Text.decimal? c).isSome) = part.toList := by
            refine List.filter_eq_self.mpr fun c hc => ?_
            have hdigit := Text.isDigit_of_ascii (h part rfl c hc) (List.all_eq_true.mp hall c hc)
            rw [Text.decimal?_of_isDigit hdigit]
            rfl
          rwa [hkept]
        · exact of_decide_eq_true hd
      unfold parsePart
      dsimp only
      split
      · rename_i hd
        rw [Text.nat?_of_isDigit (hnonempty hd) hdecimal]
        exact ⟨_, rfl⟩
      · exact ⟨0, rfl⟩

-- What is left of the text before it is cut into pieces
def pieces (s : String) : List String :=
  Text.splitOnce '-' (String.ofList ((Text.strip s).toList.dropWhile (· = 'v')))

def parts (s : String) : List String := Text.split '.' ((pieces s)[0]?.getD "")

theorem parse_ok_iff : Version.parse s = .ok v ↔ ∃ major minor patch,
    parsePart (parts s)[0]? = .ok major ∧ parsePart (parts s)[1]? = .ok minor ∧
      parsePart (parts s)[2]? = .ok patch ∧ ⟨s, major, minor, patch, (pieces s)[1]?.getD ""⟩ = v := by
  change (do
    let major ← parsePart (parts s)[0]?
    let minor ← parsePart (parts s)[1]?
    let patch ← parsePart (parts s)[2]?
    return (⟨s, major, minor, patch, (pieces s)[1]?.getD ""⟩ : Version)) = _ ↔ _
  cases parsePart (parts s)[0]? with
  | error e => simp [bind, Except.bind]
  | ok major =>
      cases parsePart (parts s)[1]? with
      | error e => simp [bind, Except.bind]
      | ok minor =>
          cases parsePart (parts s)[2]? with
          | error e => simp [bind, Except.bind]
          | ok patch => simp [bind, Except.bind, pure, Except.pure]

-- A text in ASCII is always read.
theorem parse_ascii (h : Ascii s) : ∃ v, Version.parse s = .ok v := by
  have hclean : Ascii (String.ofList ((Text.strip s).toList.dropWhile (· = 'v'))) := by
    refine h.strip.of_subset ?_
    rw [String.toList_ofList]
    exact (List.dropWhile_sublist _).subset
  have hrelease : Ascii ((pieces s)[0]?.getD "") := by
    cases hpiece : (pieces s)[0]? with
    | none => exact fun c hc => absurd hc List.not_mem_nil
    | some piece => exact hclean.of_subset (Text.splitOnce_subset (List.mem_of_getElem? hpiece))
  have hpart (i : Nat) : ∀ p ∈ (parts s)[i]?, Ascii p := fun p hp =>
    hrelease.of_subset (Text.split_subset (List.mem_of_getElem? hp))
  obtain ⟨major, hmajor⟩ := parsePart_ascii (hpart 0)
  obtain ⟨minor, hminor⟩ := parsePart_ascii (hpart 1)
  obtain ⟨patch, hpatch⟩ := parsePart_ascii (hpart 2)
  exact ⟨_, parse_ok_iff.mpr ⟨major, minor, patch, hmajor, hminor, hpatch, rfl⟩⟩

-- White space at the end never gets into the prerelease.
theorem rstrip_prerelease (h : Version.parse s = .ok v) : Text.rstrip v.prerelease = v.prerelease := by
  obtain ⟨major, minor, patch, -, -, -, rfl⟩ := parse_ok_iff.mp h
  dsimp only
  cases hpiece : (pieces s)[1]? with
  | none => rfl
  | some piece =>
      refine Text.rstrip_of_suffix (Text.rstrip_strip s) ((Text.splitOnce_suffix hpiece).trans ?_)
      rw [String.toList_ofList]
      exact List.dropWhile_suffix _

theorem asTuple_eq_fields (h : v.asTuple = w.asTuple) : v.major = w.major ∧ v.minor = w.minor ∧
    v.patch = w.patch ∧ v.prerelease = w.prerelease := by
  simp only [Version.asTuple, toLex_inj, Prod.mk.injEq] at h
  exact ⟨h.1, h.2.1, h.2.2.1, h.2.2.2.2⟩

theorem str_eq_of_asTuple (h : v.asTuple = w.asTuple) : v.str = w.str := by
  obtain ⟨hmajor, hminor, hpatch, hprerelease⟩ := asTuple_eq_fields h
  rw [Version.str, Version.str, hmajor, hminor, hpatch, hprerelease]

-- A version that is written is read as an equal one.
theorem parse_str (h : Text.rstrip v.prerelease = v.prerelease) :
    ∃ w, Version.parse v.str = .ok w ∧ w.asTuple = v.asTuple := by
  let printed : SuffixedText :=
    ⟨.three (.ofNat v.major) (.ofNat v.minor) (.ofNat v.patch),
      if v.prerelease ≠ "" then some v.prerelease else none⟩
  have htext : v.str = printed.text := by
    unfold Version.str SuffixedText.text
    dsimp only [printed]
    rw [three_text]
    split_ifs <;> rfl
  have hprerelease : printed.prerelease = v.prerelease := by
    unfold SuffixedText.prerelease
    dsimp only [printed]
    split_ifs with hempty
    · exact h
    · exact (not_not.mp hempty).symm
  refine ⟨printed.version, htext ▸ parse_suffixed printed, ?_⟩
  unfold Version.asTuple SuffixedText.version
  rw [hprerelease]
  simp [printed, VersionText.major, VersionText.minor, VersionText.patch, VersionText.parts,
    Numeral.value_ofNat]

end Parsing

section Requirements

variable {expr s t : String} {v w : Version}

-- Equal versions meet the same requirements.
theorem isCompatible_congr (hs : Version.parse s = .ok v) (ht : Version.parse t = .ok w)
    (h : v.asTuple = w.asTuple) : isCompatible expr s = isCompatible expr t := by
  unfold isCompatible
  rw [hs, ht]
  dsimp only [bind, Except.bind]
  simp only [compareVersions, h]

theorem parse_upperLimit (required : Version) :
    ∃ upper, Version.parse (upperLimit required) = .ok upper := by
  let written : VersionText :=
    .three (.ofNat required.major) (.ofNat required.minor) (.ofNat required.patch)
  have hsame : upperLimit required = upperLimit written.version := by
    unfold upperLimit VersionText.version
    dsimp only [written, VersionText.major, VersionText.minor, VersionText.patch, VersionText.parts]
    simp [Numeral.value_ofNat]
  exact ⟨_, by rw [hsame, upperLimit_version]; exact parse_text⟩

-- Every question in ASCII has an answer.
theorem isCompatible_ascii (hexpr : Ascii expr) (hs : Ascii s) :
    ∃ answer, isCompatible expr s = .ok answer := by
  obtain ⟨core, hcore⟩ := parse_ascii hs
  unfold isCompatible
  rw [hcore]
  dsimp only [bind, Except.bind]
  split
  · exact ⟨_, rfl⟩
  split
  · obtain ⟨required, hrequired⟩ := parse_ascii (hexpr.strip.drop 1).strip
    obtain ⟨upper, hupper⟩ := parse_upperLimit required
    rw [hrequired]
    dsimp only
    rw [hupper]
    exact ⟨_, rfl⟩
  cases operators.find? fun op => (Text.strip expr).startsWith op with
  | none =>
      obtain ⟨required, hrequired⟩ := parse_ascii hexpr.strip
      dsimp only
      rw [hrequired]
      exact ⟨_, rfl⟩
  | some op =>
      obtain ⟨required, hrequired⟩ := parse_ascii (hexpr.strip.drop op.length).strip
      dsimp only
      rw [hrequired]
      exact ⟨_, rfl⟩

end Requirements

section Choice

variable {expr s : String} {versions others : List String} {v best : Version} {compatible : List Version}

theorem compatibleVersions_ascii (hexpr : Ascii expr) (hversions : ∀ s ∈ versions, Ascii s) :
    ∃ compatible, compatibleVersions expr versions = .ok compatible := by
  induction versions with
  | nil => exact ⟨[], rfl⟩
  | cons sv rest ih =>
      obtain ⟨answer, hanswer⟩ := isCompatible_ascii hexpr (hversions sv List.mem_cons_self)
      obtain ⟨version, hversion⟩ := parse_ascii (hversions sv List.mem_cons_self)
      obtain ⟨compatible, hrest⟩ := ih fun s hs => hversions s (List.mem_cons_of_mem _ hs)
      rw [compatibleVersions, hanswer, hversion, hrest]
      cases answer <;> exact ⟨_, rfl⟩

-- The list has the versions that meet the requirement, and no others.
theorem mem_compatibleVersions (h : compatibleVersions expr versions = .ok compatible) :
    v ∈ compatible ↔ ∃ s ∈ versions, isCompatible expr s = .ok true ∧ Version.parse s = .ok v := by
  induction versions generalizing compatible with
  | nil =>
      obtain rfl := Except.ok.inj h
      simp
  | cons sv rest ih =>
      rw [compatibleVersions] at h
      cases hanswer : isCompatible expr sv with
      | error e =>
          rw [hanswer] at h
          cases h
      | ok answer =>
          rw [hanswer] at h
          cases answer with
          | false => simp [ih h, hanswer]
          | true =>
              cases hversion : Version.parse sv with
              | error e =>
                  rw [hversion] at h
                  cases h
              | ok version =>
                  rw [hversion] at h
                  cases hrest : compatibleVersions expr rest with
                  | error e =>
                      rw [hrest] at h
                      cases h
                  | ok others =>
                      rw [hrest] at h
                      obtain rfl := Except.ok.inj h
                      simp [ih hrest, hanswer, hversion, eq_comm]

end Choice

-- What a client gets: a version that is as high as any that meets the requirement, and is one of them.
structure HighestCompatible (expr : String) (versions : List String) (result : String) : Prop where
  compatible : isCompatible expr result = .ok true
  listed : ∃ s ∈ versions, isCompatible expr s = .ok true ∧ ∃ v w,
    Version.parse result = .ok v ∧ Version.parse s = .ok w ∧ v.asTuple = w.asTuple
  highest : ∀ s ∈ versions, isCompatible expr s = .ok true → ∃ v w,
    Version.parse result = .ok v ∧ Version.parse s = .ok w ∧ w.asTuple ≤ v.asTuple

section Negotiation

variable {expr result : String} {versions others : List String} {compatible : List Version} {best : Version}

theorem highest_str (hversions : ∀ s ∈ versions, Ascii s)
    (h : compatibleVersions expr versions = .ok compatible)
    (hbest : best ∈ compatible.argmax Version.asTuple) : HighestCompatible expr versions best.str := by
  obtain ⟨s, hs, hmeets, hparse⟩ := (mem_compatibleVersions h).mp (List.argmax_mem hbest)
  obtain ⟨printed, hprinted, hsame⟩ := parse_str (rstrip_prerelease hparse)
  refine ⟨?_, ⟨s, hs, hmeets, printed, best, hprinted, hparse, hsame⟩, fun t ht hmeets => ?_⟩
  · rw [isCompatible_congr hprinted hparse hsame, hmeets]
  · obtain ⟨w, hw⟩ := parse_ascii (hversions t ht)
    have hmem : w ∈ compatible := (mem_compatibleVersions h).mpr ⟨t, ht, hmeets, hw⟩
    exact ⟨printed, w, hprinted, hw, hsame ▸ List.le_of_mem_argmax hmem hbest⟩

-- Where some version meets the requirement, one of them is chosen.
theorem negotiate_eq_str (hversions : ∀ s ∈ versions, Ascii s)
    (h : compatibleVersions expr versions = .ok compatible)
    (hmeets : ∃ s ∈ versions, isCompatible expr s = .ok true) :
    ∃ best ∈ compatible.argmax Version.asTuple, negotiate expr versions = .ok best.str := by
  obtain ⟨s, hs, hs'⟩ := hmeets
  obtain ⟨v, hv⟩ := parse_ascii (hversions s hs)
  have hmem : v ∈ compatible := (mem_compatibleVersions h).mpr ⟨s, hs, hs', hv⟩
  cases hbest : compatible.argmax Version.asTuple with
  | none =>
      rw [List.argmax_eq_none.mp hbest] at hmem
      cases hmem
  | some best =>
      refine ⟨best, rfl, ?_⟩
      rw [negotiate, h]
      dsimp only
      rw [hbest]

-- The order of the list has no say in the choice.
theorem str_eq_of_perm {compatible' : List Version} {best' : Version}
    (h : compatibleVersions expr versions = .ok compatible)
    (h' : compatibleVersions expr others = .ok compatible') (hperm : others.Perm versions)
    (hbest : best ∈ compatible.argmax Version.asTuple)
    (hbest' : best' ∈ compatible'.argmax Version.asTuple) : best'.str = best.str := by
  have hmem (v : Version) : v ∈ compatible' ↔ v ∈ compatible := by
    rw [mem_compatibleVersions h, mem_compatibleVersions h']
    simp only [hperm.mem_iff]
  refine str_eq_of_asTuple (le_antisymm ?_ ?_)
  · exact List.le_of_mem_argmax ((hmem best').mp (List.argmax_mem hbest')) hbest
  · exact List.le_of_mem_argmax ((hmem best).mpr (List.argmax_mem hbest)) hbest'

-- The negotiation fails exactly when nothing in the list meets the requirement. Else it gives the
-- highest version that does, whatever the order of the list.
theorem negotiate_highest (hexpr : Ascii expr) (hversions : ∀ s ∈ versions, Ascii s) :
    (negotiate expr versions = .error (.versionMismatch expr versions) ↔
      ¬∃ s ∈ versions, isCompatible expr s = .ok true) ∧
    ((∃ s ∈ versions, isCompatible expr s = .ok true) →
      ∃ result, HighestCompatible expr versions result ∧
        ∀ others, others.Perm versions → negotiate expr others = .ok result) := by
  obtain ⟨compatible, h⟩ := compatibleVersions_ascii hexpr hversions
  refine ⟨⟨fun hfail hmeets => ?_, fun hnone => ?_⟩, fun hmeets => ?_⟩
  · obtain ⟨best, -, hok⟩ := negotiate_eq_str hversions h hmeets
    rw [hok] at hfail
    cases hfail
  · have hempty : compatible = [] := List.eq_nil_iff_forall_not_mem.mpr fun v hv => by
      obtain ⟨s, hs, hmeets, -⟩ := (mem_compatibleVersions h).mp hv
      exact hnone ⟨s, hs, hmeets⟩
    rw [negotiate, h, hempty]
    rfl
  · obtain ⟨best, hbest, -⟩ := negotiate_eq_str hversions h hmeets
    refine ⟨best.str, highest_str hversions h hbest, fun others hperm => ?_⟩
    have hothers : ∀ s ∈ others, Ascii s := fun s hs => hversions s (hperm.mem_iff.mp hs)
    obtain ⟨compatible', h'⟩ := compatibleVersions_ascii hexpr hothers
    obtain ⟨s, hs, hs'⟩ := hmeets
    obtain ⟨best', hbest', hok⟩ := negotiate_eq_str hothers h' ⟨s, hperm.mem_iff.mpr hs, hs'⟩
    rw [hok, str_eq_of_perm h h' hperm hbest hbest']

theorem negotiate_highest_caret :
    ∃ result, HighestCompatible "^1.2" ["1.9", "v2.0.0", "1.10.0-rc", "v1.10"] result ∧
      ∀ others, others.Perm ["1.9", "v2.0.0", "1.10.0-rc", "v1.10"] →
        negotiate "^1.2" others = .ok result := by
  refine (negotiate_highest (by decide) (by decide)).2 ⟨"1.9", List.mem_cons_self, ?_⟩
  decide +kernel

end Negotiation

end YasinCore.Compatibility
