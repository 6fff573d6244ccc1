import YasinCore.Compatibility.Negotiation
import YasinCore.Library.SemVer

namespace YasinCore.Compatibility

open YasinCore.Library

-- The digits of the build that are read with those of the patch, when no hyphen comes before them
def strayDigits (v : SemVer) : List Char :=
  match v.prerelease with
  | [] => (v.buildText.toList.takeWhile fun c => c ≠ '-' ∧ c ≠ '.').filter Char.isDigit
  | _ :: _ => []

def patchRead (v : SemVer) : Nat := Nat.ofDigitChars 10 (Nat.toDigits 10 v.patch ++ strayDigits v) 0

-- What comes after the first hyphen
def suffixRead (v : SemVer) : String :=
  match v.prerelease with
  | [] => String.ofList (v.buildText.toList.dropWhile (· ≠ '-')).tail
  | _ :: _ => v.prereleaseText ++ v.metadata

section Reading

variable {v : SemVer} {s : String} {c : Char}

theorem isspace_metadata (hc : c ∈ v.metadata.toList) : Text.isspace c = false := by
  rcases SemVer.mem_metadata hc with h | rfl | rfl
  · exact SemVer.isspace_identifierChar h
  · decide
  · decide

theorem isspace_prereleaseText (hc : c ∈ v.prereleaseText.toList) : Text.isspace c = false := by
  rcases SemVer.mem_prereleaseText hc with h | rfl
  · exact SemVer.isspace_identifierChar h
  · decide

theorem release_eq (v : SemVer) : v.release =
    (VersionText.three (.ofNat v.major) (.ofNat v.minor) (.ofNat v.patch)).text := (three_text _ _ _).symm

-- A prerelease is read with the build behind it.
theorem parse_prerelease (h : v.prerelease ≠ []) : Version.parse v.text =
    .ok ⟨v.text, v.major, v.minor, v.patch, v.prereleaseText ++ v.metadata⟩ := by
  let suffixed : SuffixedText :=
    ⟨.three (.ofNat v.major) (.ofNat v.minor) (.ofNat v.patch), some (v.prereleaseText ++ v.metadata)⟩
  have htext : v.text = suffixed.text := by
    obtain ⟨x, xs, hcons⟩ := List.exists_cons_of_ne_nil h
    unfold SemVer.text SuffixedText.text
    rw [hcons]
    dsimp only [suffixed]
    rw [release_eq, String.append_assoc, String.append_assoc]
  have hprerelease : suffixed.prerelease = v.prereleaseText ++ v.metadata := by
    refine Text.rstrip_eq_self fun c hc => ?_
    rw [String.toList_append] at hc
    rcases List.mem_append.mp hc with hc | hc
    · exact isspace_prereleaseText hc
    · exact isspace_metadata hc
  rw [htext, parse_suffixed]
  unfold SuffixedText.version
  rw [hprerelease]
  simp [suffixed, VersionText.major, VersionText.minor, VersionText.patch, VersionText.parts,
    Numeral.value_ofNat]

-- A text without white space that begins with a digit is read as it is.
theorem pieces_eq (hspace : ∀ c ∈ s.toList, Text.isspace c = false) (hfirst : s.toList.head? ≠ some 'v') :
    pieces s = Text.splitOnce '-' s := by
  have hclean : s.toList.dropWhile (· = 'v') = s.toList := by
    cases hs : s.toList with
    | nil => rfl
    | cons c cs =>
        rw [hs] at hfirst
        exact List.dropWhile_cons_of_neg (by simpa using hfirst)
  rw [pieces, Text.strip_eq_self hspace, hclean, String.ofList_toList]

-- Only the digits of a part count.
theorem parsePart_digits {digits : List Char}
    (hdigits : s.toList.filter (fun c => (Text.decimal? c).isSome) = digits) (hne : digits ≠ [])
    (hdecimal : ∀ c ∈ digits, c.isDigit) :
    parsePart (some s) = .ok (Nat.ofDigitChars 10 digits 0) := by
  unfold parsePart
  dsimp only
  rw [hdigits, if_pos (by simp [hne]), Text.nat?_of_isDigit hne hdecimal]

theorem parsePart_toString (n : Nat) : parsePart (some (toString n)) = .ok n := by
  have hnumber : (Numeral.ofNat n).text = toString n := Nat.toString_eq_ofList_toDigits.symm
  have hpart := parsePart_text (some (.ofNat n))
  rwa [Option.map_some, hnumber, Option.map_some, Numeral.value_ofNat] at hpart

-- The part of the patch with the build behind it
theorem parsePart_patch (v : SemVer) (h : v.prerelease = []) :
    parsePart (some (toString v.patch ++
      String.ofList ((v.metadata.toList.takeWhile (· ≠ '-')).takeWhile (· ≠ '.')))) =
        .ok (patchRead v) := by
  have hlist : (toString v.patch).toList = Nat.toDigits 10 v.patch := by
    rw [Nat.toString_eq_ofList_toDigits, String.toList_ofList]
  have hkept : (Nat.toDigits 10 v.patch).filter (fun c => (Text.decimal? c).isSome) =
      Nat.toDigits 10 v.patch := by
    refine List.filter_eq_self.mpr fun c hc => ?_
    rw [Text.decimal?_of_isDigit (SemVer.isDigit_of_mem_toString (hlist ▸ hc))]
    rfl
  have hstray : ((v.metadata.toList.takeWhile (· ≠ '-')).takeWhile (· ≠ '.')).filter
      (fun c => (Text.decimal? c).isSome) = strayDigits v := by
    unfold strayDigits
    rw [h]
    rcases v.toList_metadata with ⟨hempty, hbuild⟩ | hcons
    · rw [hempty, hbuild]
      rfl
    · rw [hcons, List.takeWhile_cons_of_pos (by decide), List.takeWhile_cons_of_pos (by decide),
        List.filter_cons_of_neg (by decide), List.takeWhile_takeWhile]
      have hsame : (fun c : Char => decide (decide (c ≠ '.') = true ∧ decide (c ≠ '-') = true)) =
          fun c => decide (c ≠ '-' ∧ c ≠ '.') := by
        funext c
        simp [and_comm]
      rw [hsame]
      refine List.filter_congr fun c hc => Text.decimal?_isSome ?_
      rcases SemVer.mem_buildText ((List.takeWhile_sublist _).subset hc) with hc | rfl
      · rcases SemVer.toNat_bounds hc with rfl | hbounds
        · decide
        · omega
      · decide
  have hdigits : (toString v.patch ++ String.ofList
      ((v.metadata.toList.takeWhile (· ≠ '-')).takeWhile (· ≠ '.'))).toList.filter
        (fun c => (Text.decimal? c).isSome) = Nat.toDigits 10 v.patch ++ strayDigits v := by
    rw [String.toList_append, String.toList_ofList, List.filter_append, hlist, hkept, hstray]
  refine parsePart_digits hdigits (List.append_ne_nil_of_left_ne_nil Nat.toDigits_ne_nil _) fun c hc => ?_
  rcases List.mem_append.mp hc with hc | hc
  · exact SemVer.isDigit_of_mem_toString (hlist ▸ hc)
  · unfold strayDigits at hc
    rw [h] at hc
    exact (List.mem_filter.mp hc).2

theorem parse_release (h : v.prerelease = []) : Version.parse v.text =
    .ok ⟨v.text, v.major, v.minor, patchRead v, suffixRead v⟩ := by
  have htext : v.text = v.release ++ v.metadata := by
    unfold SemVer.text
    rw [h]
  have hdigit (c : Char) (hc : c ∈ v.release.toList) : c.isDigit ∨ c = '.' := by
    rw [release_eq] at hc
    exact VersionText.isDigit_or_dot hc
  have hpieces : pieces v.text = Text.splitOnce '-' v.text := by
    refine pieces_eq (fun c hc => ?_) ?_
    · rw [htext, String.toList_append] at hc
      rcases List.mem_append.mp hc with hc | hc
      · rcases hdigit c hc with hd | rfl
        · exact Text.not_isspace_of_isDigit hd
        · decide
      · exact isspace_metadata hc
    · obtain ⟨c, rest, hcons, hc⟩ := (VersionText.three (.ofNat v.major) (.ofNat v.minor)
        (.ofNat v.patch)).exists_cons
      rw [htext, release_eq, String.toList_append, hcons]
      rintro ⟨rfl⟩
      exact absurd hc (by decide)
  have hfree : ∀ c ∈ v.release.toList, decide (c ≠ '-') := by
    intro c hc
    rcases hdigit c hc with hd | rfl
    · refine decide_eq_true ?_
      rintro rfl
      exact absurd hd (by decide)
    · decide
  have hsuffix : (pieces v.text)[1]?.getD "" = suffixRead v := by
    rw [hpieces, Text.splitOnce_second, htext, String.toList_append,
      List.dropWhile_append_of_pos hfree]
    unfold suffixRead
    rw [h]
    rcases v.toList_metadata with ⟨hempty, hbuild⟩ | hcons
    · rw [hempty, hbuild]
    · rw [hcons, List.dropWhile_cons_of_pos (by decide)]
  have hdot (n : Nat) : '.' ∉ (toString n).toList := fun hm =>
    absurd (SemVer.isDigit_of_mem_toString hm) (by decide)
  have hparts : parts v.text = toString v.major :: toString v.minor :: Text.split '.'
      (toString v.patch ++ String.ofList (v.metadata.toList.takeWhile (· ≠ '-'))) := by
    have hwhole : String.ofList (v.release.toList ++ v.metadata.toList.takeWhile (· ≠ '-')) =
        toString v.major ++ String.singleton '.' ++ (toString v.minor ++ String.singleton '.' ++
          (toString v.patch ++ String.ofList (v.metadata.toList.takeWhile (· ≠ '-')))) := by
      refine String.toList_injective ?_
      simp [SemVer.release]
    rw [parts, hpieces, Text.splitOnce_first, htext, String.toList_append,
      List.takeWhile_append_of_pos hfree, hwhole, Text.split_cons (hdot _), Text.split_cons (hdot _)]
  refine parse_ok_iff.mpr ⟨v.major, v.minor, patchRead v, ?_, ?_, ?_, by rw [hsuffix]⟩
  · rw [hparts]
    exact parsePart_toString v.major
  · rw [hparts]
    exact parsePart_toString v.minor
  · rw [hparts]
    change parsePart (Text.split '.' _)[0]? = _
    have hkeeps : ∀ c ∈ (toString v.patch).toList, decide (c ≠ '.') := fun c hc =>
      decide_eq_true fun he => hdot v.patch (he ▸ hc)
    rw [Text.split_head, String.toList_append, List.takeWhile_append_of_pos hkeeps,
      String.toList_ofList, String.ofList_append, String.ofList_toList]
    exact parsePart_patch v h

-- What is read
theorem parse_semVer (v : SemVer) : Version.parse v.text =
    .ok ⟨v.text, v.major, v.minor, patchRead v, suffixRead v⟩ := by
  cases h : v.prerelease with
  | nil => exact parse_release h
  | cons x xs =>
      have hpatch : patchRead v = v.patch := by
        unfold patchRead strayDigits
        rw [h, List.append_nil]
        exact Nat.ofDigitChars_ten_toDigits
      have hsuffix : suffixRead v = v.prereleaseText ++ v.metadata := by
        unfold suffixRead
        rw [h]
      rw [hpatch, hsuffix]
      exact parse_prerelease (by rw [h]; exact List.cons_ne_nil _ _)

end Reading

-- The patch and the suffix of the first are read as those of a lower version.
def ReadBefore (a b : SemVer) : Prop :=
  patchRead a < patchRead b ∨ patchRead a = patchRead b ∧ suffixRead a ≠ "" ∧
    (suffixRead b = "" ∨ suffixRead a < suffixRead b)

-- Versions with the same prerelease have the same build, others have identifiers whose texts agree.
def SuffixesInOrder (a b : SemVer) : Prop :=
  match a.prerelease, b.prerelease with
  | [], [] => patchRead a = patchRead b ∧ suffixRead a = suffixRead b
  | [], _ :: _ => ReadBefore b a
  | _ :: _, [] => ReadBefore a b
  | x :: xs, y :: ys => SemVer.ListsAgree (a.metadata = b.metadata) (x :: xs) (y :: ys)

-- The digits of a build do not lift a lower patch, and the suffixes are in order.
def ReadInOrder (a b : SemVer) : Prop :=
  a.major = b.major → a.minor = b.minor →
    (a.patch < b.patch → ReadBefore a b) ∧ (b.patch < a.patch → ReadBefore b a) ∧
    (a.patch = b.patch → SuffixesInOrder a b)

section Comparison

variable {a b : SemVer}

def lowKey (v : SemVer) : ℕ ×ₗ Bool ×ₗ String :=
  toLex (patchRead v, toLex (decide (suffixRead v = ""), suffixRead v))

theorem lowKey_lt_iff : lowKey a < lowKey b ↔ ReadBefore a b := by
  unfold lowKey ReadBefore
  simp only [Prod.Lex.toLex_lt_toLex]
  by_cases ha : suffixRead a = ""
  · by_cases hb : suffixRead b = ""
    · simp [ha, hb]
    · simp [ha, hb]
  · by_cases hb : suffixRead b = ""
    · simp [ha, hb]
    · simp [ha, hb]

theorem lowKey_eq_iff : lowKey a = lowKey b ↔ patchRead a = patchRead b ∧ suffixRead a = suffixRead b := by
  simp only [lowKey, toLex_inj, Prod.mk.injEq]
  refine ⟨fun h => ⟨h.1, h.2.2⟩, fun h => ⟨h.1, by rw [h.2], h.2⟩⟩

theorem patchRead_of_cons {x : SemVer.PrereleaseIdentifier} {xs : List SemVer.PrereleaseIdentifier}
    (h : a.prerelease = x :: xs) : patchRead a = a.patch := by
  unfold patchRead strayDigits
  rw [h, List.append_nil]
  exact Nat.ofDigitChars_ten_toDigits

theorem suffixRead_of_cons {x : SemVer.PrereleaseIdentifier} {xs : List SemVer.PrereleaseIdentifier}
    (h : a.prerelease = x :: xs) : suffixRead a ≠ "" ∧
      '.' :: (suffixRead a).toList = SemVer.tailText (x :: xs) ++ a.metadata.toList := by
  have htext : '.' :: a.prereleaseText.toList = SemVer.tailText (x :: xs) := by
    rw [SemVer.prereleaseText, h, SemVer.dot_intercalate]
  have hread : suffixRead a = a.prereleaseText ++ a.metadata := by
    unfold suffixRead
    rw [h]
  rw [hread, String.toList_append, ← List.cons_append, htext]
  refine ⟨fun hempty => x.text_ne ?_, rfl⟩
  have hnone : a.prereleaseText.toList = [] := by
    rw [String.append_eq_empty_iff] at hempty
    rw [hempty.1]
    rfl
  rw [hnone, ← List.append_nil (SemVer.tailText (x :: xs)), SemVer.tailText_cons] at htext
  have hparts := List.append_eq_nil_iff.mp (List.cons.inj htext).2.symm
  exact String.toList_eq_nil_iff.mp hparts.1

def upperKey (v : SemVer) : ℕ ×ₗ Bool ×ₗ List (ℕ ⊕ₗ String) :=
  toLex (v.patch, toLex (decide (v.prerelease = []), v.prerelease.map SemVer.PrereleaseIdentifier.rank))

theorem sameOrder_iff : SemVer.SameOrder (lowKey a) (lowKey b) (upperKey a) (upperKey b) ↔
    (a.patch < b.patch → ReadBefore a b) ∧ (b.patch < a.patch → ReadBefore b a) ∧
    (a.patch = b.patch → SuffixesInOrder a b) := by
  rcases lt_trichotomy a.patch b.patch with h | h | h
  · have hkeys : upperKey a < upperKey b := Prod.Lex.toLex_lt_toLex.mpr (.inl h)
    rw [SemVer.sameOrder_of_lt hkeys, lowKey_lt_iff]
    simp [h, h.asymm, h.ne]
  · rw [h]
    simp only [lt_irrefl, IsEmpty.forall_iff, true_and, forall_const]
    unfold SuffixesInOrder
    cases ha : a.prerelease with
    | nil =>
        cases hb : b.prerelease with
        | nil =>
            have hkeys : upperKey a = upperKey b := by rw [upperKey, upperKey, h, ha, hb]
            rw [hkeys, SemVer.sameOrder_of_eq, lowKey_eq_iff]
        | cons y ys =>
            have hkeys : upperKey b < upperKey a := by
              simp [upperKey, Prod.Lex.toLex_lt_toLex, h, ha, hb]
            rw [SemVer.sameOrder_of_gt hkeys, lowKey_lt_iff]
    | cons x xs =>
        cases hb : b.prerelease with
        | nil =>
            have hkeys : upperKey a < upperKey b := by
              simp [upperKey, Prod.Lex.toLex_lt_toLex, h, ha, hb]
            rw [SemVer.sameOrder_of_lt hkeys, lowKey_lt_iff]
        | cons y ys =>
            obtain ⟨hsuffix, htail⟩ := suffixRead_of_cons ha
            obtain ⟨hsuffix', htail'⟩ := suffixRead_of_cons hb
            have hmetadata : a.metadata = b.metadata ↔ a.metadata.toList = b.metadata.toList :=
              String.toList_inj.symm
            have htails := @SemVer.sameOrder_tails (x :: xs) (y :: ys) _ _ a.metadata_head b.metadata_head
            rw [← htail, ← htail', SemVer.sameOrder_cons, SemVer.sameOrder_toList, ← hmetadata] at htails
            refine Iff.trans ?_ htails
            unfold lowKey upperKey
            rw [patchRead_of_cons ha, patchRead_of_cons hb, h, ha, hb, decide_eq_false hsuffix,
              decide_eq_false hsuffix', decide_eq_false (List.cons_ne_nil x xs),
              decide_eq_false (List.cons_ne_nil y ys), SemVer.sameOrder_lex, SemVer.sameOrder_lex]
            simp only [forall_const]
  · have hkeys : upperKey b < upperKey a := Prod.Lex.toLex_lt_toLex.mpr (.inl h)
    rw [SemVer.sameOrder_of_gt hkeys, lowKey_lt_iff]
    simp [h, h.asymm, h.ne']

end Comparison

section Builds

variable {a b : SemVer}

theorem isDigit_strayDigits (v : SemVer) : ∀ c ∈ strayDigits v, c.isDigit := by
  intro c hc
  unfold strayDigits at hc
  cases h : v.prerelease with
  | nil =>
      rw [h] at hc
      exact (List.mem_filter.mp hc).2
  | cons _ _ =>
      rw [h] at hc
      cases hc

-- The digits of the build stand behind those of the patch.
theorem patchRead_eq (v : SemVer) :
    patchRead v = v.patch * 10 ^ (strayDigits v).length + Nat.ofDigitChars 10 (strayDigits v) 0 := by
  rw [patchRead, Nat.ofDigitChars_append, Nat.ofDigitChars_ten_toDigits,
    Nat.ofDigitChars_eq_ofDigitChars_zero, Nat.mul_comm]

-- A lower patch stays the lower one if its build lends it no more digits than the other one's.
theorem patchRead_lt (h : a.patch < b.patch) (hl : (strayDigits a).length ≤ (strayDigits b).length) :
    patchRead a < patchRead b := by
  have hlow := Text.ofDigitChars_lt (isDigit_strayDigits a)
  calc patchRead a < (a.patch + 1) * 10 ^ (strayDigits a).length := by
        rw [patchRead_eq, Nat.add_one_mul]
        exact Nat.add_lt_add_left hlow _
    _ ≤ b.patch * 10 ^ (strayDigits b).length :=
        Nat.mul_le_mul h (Nat.pow_le_pow_right (by decide) hl)
    _ ≤ patchRead b := by
        rw [patchRead_eq b]
        exact Nat.le_add_right _ _

-- Behind one patch, more digits make a higher one, unless it is zero.
theorem patchRead_lt_of_fewer (h : a.patch = b.patch) (hpos : 0 < a.patch)
    (hl : (strayDigits a).length < (strayDigits b).length) : patchRead a < patchRead b := by
  have hlow := Text.ofDigitChars_lt (isDigit_strayDigits a)
  calc patchRead a < (a.patch + 1) * 10 ^ (strayDigits a).length := by
        rw [patchRead_eq, Nat.add_one_mul]
        exact Nat.add_lt_add_left hlow _
    _ ≤ a.patch * 10 * 10 ^ (strayDigits a).length := Nat.mul_le_mul_right _ (by omega)
    _ = b.patch * 10 ^ ((strayDigits a).length + 1) := by rw [h, Nat.mul_assoc, Nat.pow_succ']
    _ ≤ b.patch * 10 ^ (strayDigits b).length :=
        Nat.mul_le_mul_left _ (Nat.pow_le_pow_right (by decide) hl)
    _ ≤ patchRead b := by
        rw [patchRead_eq b]
        exact Nat.le_add_right _ _

theorem patchRead_eq_iff (h : a.patch = b.patch) (hpos : 0 < a.patch) :
    patchRead a = patchRead b ↔ strayDigits a = strayDigits b := by
  constructor
  · intro he
    rcases lt_trichotomy (strayDigits a).length (strayDigits b).length with hl | hl | hl
    · exact absurd he (patchRead_lt_of_fewer h hpos hl).ne
    · refine Text.ofDigitChars_inj (isDigit_strayDigits a) (isDigit_strayDigits b) hl ?_
      rw [patchRead_eq, patchRead_eq, h, hl] at he
      exact Nat.add_left_cancel he
    · exact absurd he (patchRead_lt_of_fewer h.symm (h ▸ hpos) hl).ne'
  · intro he
    rw [patchRead_eq, patchRead_eq, h, he]

-- Where the two builds lend the patches equally many digits, only the suffixes of one patch count.
theorem readInOrder_of_length_eq (hl : (strayDigits a).length = (strayDigits b).length) :
    ReadInOrder a b ↔
      (a.major = b.major → a.minor = b.minor → a.patch = b.patch → SuffixesInOrder a b) := by
  refine forall_congr' fun _ => forall_congr' fun _ => ⟨fun h => h.2.2, fun h => ⟨fun hlt => ?_,
    fun hlt => ?_, h⟩⟩
  · exact .inl (patchRead_lt hlt hl.le)
  · exact .inl (patchRead_lt hlt hl.ge)

-- Two releases of one patch other than zero are taken for equal exactly when their builds lend it the
-- same digits and agree behind their first hyphens.
theorem suffixesInOrder_releases (ha : a.prerelease = []) (hb : b.prerelease = []) (h : a.patch = b.patch)
    (hpos : 0 < a.patch) : SuffixesInOrder a b ↔ strayDigits a = strayDigits b ∧
      (a.buildText.toList.dropWhile (· ≠ '-')).tail = (b.buildText.toList.dropWhile (· ≠ '-')).tail := by
  unfold SuffixesInOrder
  rw [ha, hb]
  dsimp only
  rw [patchRead_eq_iff h hpos, suffixRead, suffixRead, ha, hb]
  exact and_congr_right fun _ => String.ofList_inj

end Builds

section WithoutBuild

variable {a b : SemVer}

theorem buildText_of_no_build (h : a.build = []) : a.buildText = "" := by
  rw [SemVer.buildText, h]
  rfl

theorem strayDigits_of_no_build (h : a.build = []) : strayDigits a = [] := by
  unfold strayDigits
  rw [buildText_of_no_build h]
  cases a.prerelease <;> rfl

theorem read_of_no_build (h : a.build = []) :
    patchRead a = a.patch ∧ suffixRead a = a.prereleaseText ∧ a.metadata = "" := by
  have hmetadata : a.metadata = "" := by
    unfold SemVer.metadata
    rw [h]
  refine ⟨?_, ?_, hmetadata⟩
  · rw [patchRead, strayDigits_of_no_build h, List.append_nil]
    exact Nat.ofDigitChars_ten_toDigits
  · unfold suffixRead
    rw [buildText_of_no_build h, hmetadata]
    cases hprerelease : a.prerelease with
    | nil =>
        rw [SemVer.prereleaseText, hprerelease]
        rfl
    | cons x xs => exact String.append_empty

-- Without builds only the identifiers of two prereleases of one version may be out of order.
theorem readInOrder_of_no_build (ha : a.build = []) (hb : b.build = []) : ReadInOrder a b ↔
    (a.major = b.major → a.minor = b.minor → a.patch = b.patch →
      SemVer.ListsAgree True a.prerelease b.prerelease) := by
  obtain ⟨hpatch, hsuffix, hmetadata⟩ := read_of_no_build ha
  obtain ⟨hpatch', hsuffix', hmetadata'⟩ := read_of_no_build hb
  have hsuffixes (h : a.patch = b.patch) :
      SuffixesInOrder a b ↔ SemVer.ListsAgree True a.prerelease b.prerelease := by
    unfold SuffixesInOrder
    cases hp : a.prerelease with
    | nil =>
        have hempty : suffixRead a = "" := by
          rw [hsuffix, SemVer.prereleaseText, hp]
          rfl
        cases hq : b.prerelease with
        | nil =>
            have hempty' : suffixRead b = "" := by
              rw [hsuffix', SemVer.prereleaseText, hq]
              rfl
            exact iff_of_true ⟨by rw [hpatch, hpatch', h], hempty.trans hempty'.symm⟩ trivial
        | cons y ys =>
            exact iff_of_true (.inr ⟨by rw [hpatch, hpatch', h], (suffixRead_of_cons hq).1, .inl hempty⟩)
              trivial
    | cons x xs =>
        cases hq : b.prerelease with
        | nil =>
            have hempty' : suffixRead b = "" := by
              rw [hsuffix', SemVer.prereleaseText, hq]
              rfl
            exact iff_of_true (.inr ⟨by rw [hpatch, hpatch', h], (suffixRead_of_cons hp).1, .inl hempty'⟩)
              trivial
        | cons y ys =>
            have hsame : (a.metadata = b.metadata) = True := by rw [hmetadata, hmetadata', eq_self]
            rw [hsame]
  rw [readInOrder_of_length_eq (by rw [strayDigits_of_no_build ha, strayDigits_of_no_build hb])]
  exact forall_congr' fun _ => forall_congr' fun _ => forall_congr' hsuffixes

end WithoutBuild

-- The comparison is the one of semantic versions exactly when the two are read in order.
theorem compares_by_precedence_iff (a b : SemVer) :
    (∃ v w, Version.parse a.text = .ok v ∧ Version.parse b.text = .ok w ∧
      (v.asTuple < w.asTuple ↔ a.precedence < b.precedence) ∧
      (v.asTuple = w.asTuple ↔ a.precedence = b.precedence)) ↔ ReadInOrder a b := by
  have hkeys : SemVer.SameOrder
      (Version.asTuple ⟨a.text, a.major, a.minor, patchRead a, suffixRead a⟩)
      (Version.asTuple ⟨b.text, b.major, b.minor, patchRead b, suffixRead b⟩)
      a.precedence b.precedence ↔ ReadInOrder a b := by
    unfold Version.asTuple SemVer.precedence ReadInOrder
    rw [SemVer.sameOrder_lex, SemVer.sameOrder_lex, ← sameOrder_iff]
    rfl
  rw [parse_semVer, parse_semVer, ← hkeys]
  constructor
  · rintro ⟨v, w, hv, hw, hless, heq⟩
    obtain rfl := Except.ok.inj hv
    obtain rfl := Except.ok.inj hw
    exact ⟨hless, heq⟩
  · exact fun h => ⟨_, _, rfl, rfl, h.1, h.2⟩

-- 1.0.0-10 comes before 1.0.0-2.
theorem numbers_compare_as_texts : ¬∀ a b : SemVer, ∃ v w,
    Version.parse a.text = .ok v ∧ Version.parse b.text = .ok w ∧
      (v.asTuple < w.asTuple ↔ a.precedence < b.precedence) ∧
      (v.asTuple = w.asTuple ↔ a.precedence = b.precedence) := by
  intro h
  obtain ⟨v, w, hv, hw, hless, -⟩ := h ⟨1, 0, 0, [.numeric 2], []⟩ ⟨1, 0, 0, [.numeric 10], []⟩
  rw [parse_semVer] at hv hw
  obtain rfl := Except.ok.inj hv
  obtain rfl := Except.ok.inj hw
  exact absurd (hless.mpr (by decide)) (by decide +kernel)

end YasinCore.Compatibility
