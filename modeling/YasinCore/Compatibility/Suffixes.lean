import YasinCore.Compatibility.Agreement

namespace YasinCore.Compatibility

open YasinCore.Library

-- A version with any text after it, set off by a hyphen.
structure SuffixedText where
  release : VersionText
  suffix : Option String

namespace SuffixedText

def text (v : SuffixedText) : String :=
  match v.suffix with
  | none => v.release.text
  | some suffix => v.release.text ++ "-" ++ suffix

-- What is read as the prerelease; a blank one is none.
def prerelease (v : SuffixedText) : String := (v.suffix.map Text.rstrip).getD ""

def version (v : SuffixedText) : Version :=
  ⟨v.text, v.release.major, v.release.minor, v.release.patch, v.prerelease⟩

end SuffixedText

theorem three_text (major minor patch : Nat) :
    (VersionText.three (.ofNat major) (.ofNat minor) (.ofNat patch)).text =
      toString major ++ "." ++ toString minor ++ "." ++ toString patch := by
  have hnumber (n : Nat) : (Numeral.ofNat n).text = toString n :=
    Nat.toString_eq_ofList_toDigits.symm
  rw [← hnumber, ← hnumber, ← hnumber]
  refine String.toList_injective ?_
  rw [VersionText.toList_text]
  simp [Numeral.toList_text]

theorem splitOnce_hyphen (v : VersionText) (rest : String) :
    Text.splitOnce '-' (v.text ++ "-" ++ rest) = [v.text, rest] := by
  have hfree : ∀ c ∈ v.text.toList, c ≠ '-' := by
    intro c hc
    rcases v.isDigit_or_dot hc with hd | rfl
    · rintro rfl
      exact absurd hd (by decide)
    · decide
  have hlist : (v.text ++ "-" ++ rest).toList = v.text.toList ++ '-' :: rest.toList := by simp
  have hdrop : (v.text ++ "-" ++ rest).toList.dropWhile (· ≠ '-') = '-' :: rest.toList := by
    rw [hlist, List.dropWhile_append_of_pos fun c hc => by simpa using hfree c hc]
    exact List.dropWhile_cons_of_neg (by simp)
  have htake : (v.text ++ "-" ++ rest).toList.takeWhile (· ≠ '-') = v.text.toList := by
    rw [hlist, List.takeWhile_append_of_pos fun c hc => by simpa using hfree c hc]
    rw [List.takeWhile_cons_of_neg (by simp), List.append_nil]
  rw [Text.splitOnce, hdrop, htake]
  dsimp only
  rw [String.ofList_toList, String.ofList_toList]

-- The numbers are read as without the suffix.
theorem parse_suffixed (v : SuffixedText) : Version.parse v.text = .ok v.version := by
  obtain ⟨release, suffix⟩ := v
  cases suffix with
  | none => exact parse_text
  | some suffix =>
      obtain ⟨c, rest, hcons, hc⟩ := release.exists_cons
      have hstrip : Text.strip (release.text ++ "-" ++ suffix) =
          release.text ++ "-" ++ Text.rstrip suffix := by
        have hhyphen : "-" = String.singleton '-' := by decide
        rw [hhyphen]
        refine Text.strip_append (fun c hc => ?_) (by decide)
        rcases release.isDigit_or_dot hc with hd | rfl
        · exact Text.not_isspace_of_isDigit hd
        · decide
      have hclean : String.ofList ((release.text ++ "-" ++ Text.rstrip suffix).toList.dropWhile (· = 'v')) =
          release.text ++ "-" ++ Text.rstrip suffix := by
        have hne : c ≠ 'v' := by
          rintro rfl
          exact absurd hc (by decide)
        have hlist : (release.text ++ "-" ++ Text.rstrip suffix).toList =
            c :: (rest ++ '-' :: (Text.rstrip suffix).toList) := by
          simp [hcons]
        rw [hlist, List.dropWhile_cons_of_neg (by simp [hne]), ← hlist, String.ofList_toList]
      unfold Version.parse SuffixedText.text
      dsimp only
      rw [hstrip, hclean, splitOnce_hyphen]
      change (do
        let major ← parsePart (Text.split '.' release.text)[0]?
        let minor ← parsePart (Text.split '.' release.text)[1]?
        let patch ← parsePart (Text.split '.' release.text)[2]?
        return (⟨_, major, minor, patch, Text.rstrip suffix⟩ : Version)) = _
      rw [release.split_text, List.getElem?_map, List.getElem?_map, List.getElem?_map, parsePart_text,
        parsePart_text, parsePart_text]
      rfl

end YasinCore.Compatibility
