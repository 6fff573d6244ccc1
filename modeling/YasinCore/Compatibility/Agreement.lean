import YasinCore.Compatibility.Version
import YasinCore.Plugins.Registry

namespace YasinCore.Compatibility

open YasinCore.Library

-- A decimal number as it is written; zeros may lead.
structure Numeral where
  digits : List Char
  nonempty : digits ≠ []
  decimal : ∀ c ∈ digits, c.isDigit

def Numeral.text (n : Numeral) : String := String.ofList n.digits

def Numeral.value (n : Numeral) : Nat := Nat.ofDigitChars 10 n.digits 0

-- A version of one to three numbers.
inductive VersionText
  | one (major : Numeral)
  | two (major minor : Numeral)
  | three (major minor patch : Numeral)

namespace VersionText

def parts : VersionText → List Numeral
  | .one major => [major]
  | .two major minor => [major, minor]
  | .three major minor patch => [major, minor, patch]

def text (v : VersionText) : String := ".".intercalate (v.parts.map Numeral.text)

def major (v : VersionText) : Nat := (v.parts[0]?.map Numeral.value).getD 0

def minor (v : VersionText) : Nat := (v.parts[1]?.map Numeral.value).getD 0

def patch (v : VersionText) : Nat := (v.parts[2]?.map Numeral.value).getD 0

def numbers (v : VersionText) : List Nat := [v.major, v.minor, v.patch]

end VersionText

inductive Operator
  | ge
  | le
  | gt
  | lt
  | eq
  | ne

def Operator.symbol : Operator → String
  | .ge => ">="
  | .le => "<="
  | .gt => ">"
  | .lt => "<"
  | .eq => "=="
  | .ne => "!="

-- The documented expressions.
inductive Requirement
  | any
  | exact (v : VersionText)
  | compare (op : Operator) (v : VersionText)
  | caret (v : VersionText)

def Requirement.text : Requirement → String
  | .any => "*"
  | .exact v => v.text
  | .compare op v => op.symbol ++ v.text
  | .caret v => "^" ++ v.text

section Texts

variable {n : Numeral} {v : VersionText} {c : Char}

theorem Numeral.toList_text : n.text.toList = n.digits := String.toList_ofList

theorem Numeral.nat?_digits : Text.nat? n.digits = some n.value :=
  Text.nat?_of_isDigit n.nonempty n.decimal

theorem Numeral.allDigits_text : Text.allDigits n.text := by
  rw [Text.allDigits, Bool.and_eq_true, toList_text]
  refine ⟨?_, List.all_eq_true.mpr fun c hc => Text.isdigit_of_isDigit (n.decimal c hc)⟩
  rw [Bool.not_eq_true', String.isEmpty_eq_false_iff]
  exact fun he => n.nonempty (by rw [← toList_text, he]; rfl)

theorem VersionText.parts_ne_nil : v.parts ≠ [] := by
  cases v <;> exact List.cons_ne_nil _ _

theorem VersionText.toList_text : v.text.toList =
    match v with
    | .one major => major.digits
    | .two major minor => major.digits ++ '.' :: minor.digits
    | .three major minor patch => major.digits ++ '.' :: (minor.digits ++ '.' :: patch.digits) := by
  rw [text, String.toList_intercalate]
  cases v <;> simp [parts, Numeral.toList_text, List.intercalate]

theorem VersionText.split_text : Text.split '.' v.text = v.parts.map Numeral.text := by
  refine Text.split_intercalate (fun piece hp (hdot : '.' ∈ piece.toList) => ?_) ?_
  · obtain ⟨n, -, rfl⟩ := List.mem_map.mp hp
    rw [Numeral.toList_text] at hdot
    exact absurd (n.decimal _ hdot) (by decide)
  · simpa using v.parts_ne_nil

-- A version begins with a digit and has nothing but digits and dots.
theorem VersionText.isDigit_or_dot (hc : c ∈ v.text.toList) : c.isDigit ∨ c = '.' := by
  rw [toList_text] at hc
  cases v with
  | one major => exact .inl (major.decimal c hc)
  | two major minor =>
      rcases List.mem_append.mp hc with hc | hc
      · exact .inl (major.decimal c hc)
      · exact (List.mem_cons.mp hc).symm.imp_left (minor.decimal c)
  | three major minor patch =>
      rcases List.mem_append.mp hc with hc | hc
      · exact .inl (major.decimal c hc)
      rcases List.mem_cons.mp hc with hc | hc
      · exact .inr hc
      rcases List.mem_append.mp hc with hc | hc
      · exact .inl (minor.decimal c hc)
      · exact (List.mem_cons.mp hc).symm.imp_left (patch.decimal c)

theorem VersionText.exists_cons (v : VersionText) :
    ∃ c rest, v.text.toList = c :: rest ∧ c.isDigit := by
  have hfirst (n : Numeral) (more : List Char) :
      ∃ c rest, n.digits ++ more = c :: rest ∧ c.isDigit := by
    obtain ⟨c, rest, hn⟩ := List.exists_cons_of_ne_nil n.nonempty
    exact ⟨c, rest ++ more, by rw [hn]; rfl, n.decimal c (by simp [hn])⟩
  rw [toList_text]
  cases v with
  | one major => simpa using hfirst major []
  | two major minor => exact hfirst major _
  | three major minor patch => exact hfirst major _

-- Nothing is stripped from a version, nor from an operator before it.
theorem VersionText.strip_text : Text.strip v.text = v.text := by
  refine Text.strip_eq_self fun c hc => ?_
  rcases v.isDigit_or_dot hc with hd | rfl
  · exact Text.not_isspace_of_isDigit hd
  · decide

theorem VersionText.strip_append {start : String} (h : ∀ c ∈ start.toList, Text.isspace c = false) :
    Text.strip (start ++ v.text) = start ++ v.text := by
  refine Text.strip_eq_self fun c hc => ?_
  rw [String.toList_append] at hc
  rcases List.mem_append.mp hc with hc | hc
  · exact h c hc
  rcases v.isDigit_or_dot hc with hd | rfl
  · exact Text.not_isspace_of_isDigit hd
  · decide

theorem drop_append {start rest : String} {n : Nat} (h : start.length = n) :
    ((start ++ rest).drop n).toString = rest := by
  refine String.toList_injective ?_
  change ((start ++ rest).drop n).copy.toList = rest.toList
  rw [String.toList_copy_drop, String.toList_append, ← h, ← String.length_toList, List.drop_left]

end Texts

section Parsers

variable {v : VersionText}

-- Both parsers read the numbers, those that are missing as zeros.
theorem parseVersion_text : Plugins.parseVersion v.text = .ok v.numbers := by
  have hclean : String.ofList (v.text.toList.filter fun c => Text.isdigit c || c = '.') = v.text := by
    rw [List.filter_eq_self.mpr, String.ofList_toList]
    intro c hc
    rcases v.isDigit_or_dot hc with hd | rfl
    · rw [Text.isdigit_of_isDigit hd]
      rfl
    · simp
  have hdigits : (v.parts.map Numeral.text).filter Text.allDigits = v.parts.map Numeral.text :=
    List.filter_eq_self.mpr fun piece hp => by
      obtain ⟨n, -, rfl⟩ := List.mem_map.mp hp
      exact n.allDigits_text
  have hpart (n : Numeral) : Plugins.parsePart n.text = .ok n.value := by
    rw [Plugins.parsePart, n.toList_text, n.nat?_digits]
  unfold Plugins.parseVersion
  dsimp only
  rw [hclean, VersionText.split_text, hdigits]
  cases v <;> simp [VersionText.parts, hpart, VersionText.numbers, VersionText.major,
    VersionText.minor, VersionText.patch, Plugins.padVersion] <;> rfl

theorem parsePart_text (n : Option Numeral) :
    parsePart (n.map Numeral.text) = .ok ((n.map Numeral.value).getD 0) := by
  cases n with
  | none => rfl
  | some n =>
      have hdigits : n.text.toList.filter (fun c => (Text.decimal? c).isSome) = n.digits := by
        rw [n.toList_text]
        refine List.filter_eq_self.mpr fun c hc => ?_
        rw [Text.decimal?_of_isDigit (n.decimal c hc)]
        rfl
      rw [Option.map_some, parsePart, hdigits, n.allDigits_text, Bool.true_or, if_pos rfl, n.nat?_digits]
      rfl

theorem parse_text : Version.parse v.text = .ok ⟨v.text, v.major, v.minor, v.patch, ""⟩ := by
  obtain ⟨c, rest, hcons, hc⟩ := v.exists_cons
  have hclean : String.ofList (v.text.toList.dropWhile (· = 'v')) = v.text := by
    rw [hcons, List.dropWhile_cons_of_neg, ← hcons, String.ofList_toList]
    simp only [decide_eq_true_eq]
    rintro rfl
    exact absurd hc (by decide)
  have hrelease : Text.splitOnce '-' v.text = [v.text] := by
    refine Text.splitOnce_of_notMem fun hm => ?_
    rcases v.isDigit_or_dot hm with hd | hd
    · exact absurd hd (by decide)
    · exact absurd hd (by decide)
  unfold Version.parse
  dsimp only
  rw [v.strip_text, hclean, hrelease]
  change (do
    let major ← parsePart (Text.split '.' v.text)[0]?
    let minor ← parsePart (Text.split '.' v.text)[1]?
    let patch ← parsePart (Text.split '.' v.text)[2]?
    return (⟨v.text, major, minor, patch, ""⟩ : Version)) = _
  rw [v.split_text, List.getElem?_map, List.getElem?_map, List.getElem?_map, parsePart_text,
    parsePart_text, parsePart_text]
  rfl

-- A release as the checker of the SDK sees it.
def VersionText.version (v : VersionText) : Version := ⟨v.text, v.major, v.minor, v.patch, ""⟩

-- A number as it is written by str.
def Numeral.ofNat (n : Nat) : Numeral where
  digits := Nat.toDigits 10 n
  nonempty := Nat.toDigits_ne_nil
  decimal _ hc := Nat.isDigit_of_mem_toDigits (by decide) (by decide) hc

theorem Numeral.value_ofNat (n : Nat) : (Numeral.ofNat n).value = n :=
  Nat.ofDigitChars_ten_toDigits

-- The version before which the range of a caret ends.
def VersionText.limit (v : VersionText) : VersionText :=
  if 0 < v.major then .three (.ofNat (v.major + 1)) (.ofNat 0) (.ofNat 0)
  else if 0 < v.minor then .three (.ofNat 0) (.ofNat (v.minor + 1)) (.ofNat 0)
  else .three (.ofNat 0) (.ofNat 0) (.ofNat (v.patch + 1))

theorem upperLimit_version : upperLimit v.version = v.limit.text := by
  have hzero : (Numeral.ofNat 0).text = "0" := by decide
  have hnumber (n : Nat) : (Numeral.ofNat n).text = toString n :=
    Nat.toString_eq_ofList_toDigits.symm
  have htext (a b c : Numeral) :
      (VersionText.three a b c).text = a.text ++ "." ++ b.text ++ "." ++ c.text := by
    refine String.toList_injective ?_
    rw [VersionText.toList_text]
    simp [Numeral.toList_text]
  unfold upperLimit VersionText.limit VersionText.version
  dsimp only
  split_ifs <;> rw [htext, hzero, hnumber] <;> exact String.toList_injective (by simp)

end Parsers

section Orders

-- The order of versions, number by number.
def Precedes (first second : Nat × Nat × Nat) : Prop :=
  first.1 < second.1 ∨ first.1 = second.1 ∧
    (first.2.1 < second.2.1 ∨ first.2.1 = second.2.1 ∧ first.2.2 < second.2.2)

variable {a b c x y z : Nat} {raw raw' : String}

theorem list_lt_iff : [a, b, c] < [x, y, z] ↔ Precedes (a, b, c) (x, y, z) := by
  simp [Precedes, List.cons_lt_cons_iff]

theorem list_le_iff : [a, b, c] ≤ [x, y, z] ↔ ¬Precedes (x, y, z) (a, b, c) := by
  rw [← list_lt_iff]
  exact (not_lt (α := List Nat)).symm

theorem asTuple_lt_iff : (⟨raw, a, b, c, ""⟩ : Version).asTuple < (⟨raw', x, y, z, ""⟩ : Version).asTuple ↔
    Precedes (a, b, c) (x, y, z) := by
  simp [Precedes, Version.asTuple, Prod.Lex.toLex_lt_toLex]

theorem asTuple_le_iff : (⟨raw, a, b, c, ""⟩ : Version).asTuple ≤ (⟨raw', x, y, z, ""⟩ : Version).asTuple ↔
    ¬Precedes (x, y, z) (a, b, c) := by
  rw [← asTuple_lt_iff, not_lt]

theorem asTuple_eq_iff : (⟨raw, a, b, c, ""⟩ : Version).asTuple = (⟨raw', x, y, z, ""⟩ : Version).asTuple ↔
    [a, b, c] = [x, y, z] := by
  simp [Version.asTuple]

end Orders

section Operators

variable {v : VersionText}

theorem startsWith_eq {start : String} {o : String} : (start ++ v.text).startsWith o =
    decide (o.toList <+: start.toList ++ v.text.toList) := by
  rw [Bool.eq_iff_iff, String.startsWith_string_iff, String.toList_append, decide_eq_true_iff]

theorem find_operator (op : Operator) :
    operators.find? (fun o => (op.symbol ++ v.text).startsWith o) = some op.symbol := by
  obtain ⟨c, rest, hcons, hc⟩ := v.exists_cons
  have hne : '=' ≠ c := by
    rintro rfl
    exact absurd hc (by decide)
  cases op <;> simp [operators, startsWith_eq, hcons, Operator.symbol,
    List.cons_prefix_cons, hne]

theorem find_operator_none : operators.find? (fun o => v.text.startsWith o) = none := by
  obtain ⟨c, rest, hcons, hc⟩ := v.exists_cons
  have hne (other : Char) (ho : other.isDigit = false) : other ≠ c := by
    rintro rfl
    rw [hc] at ho
    cases ho
  refine List.find?_eq_none.mpr fun o ho => ?_
  rw [String.startsWith_string_iff, hcons]
  simp only [operators, List.mem_cons, List.not_mem_nil, or_false] at ho
  rcases ho with rfl | rfl | rfl | rfl | rfl | rfl
  all_goals simp [List.cons_prefix_cons, hne]

theorem not_startsWith_caret : v.text.startsWith "^" = false := by
  obtain ⟨c, rest, hcons, hc⟩ := v.exists_cons
  have hne : '^' ≠ c := by
    rintro rfl
    exact absurd hc (by decide)
  rw [String.startsWith_string_eq_false_iff, hcons]
  simp [List.cons_prefix_cons, hne]

theorem symbol_not_caret (op : Operator) : (op.symbol ++ v.text).startsWith "^" = false := by
  rw [startsWith_eq]
  cases op <;> simp [Operator.symbol, List.cons_prefix_cons]

theorem caret_startsWith : ("^" ++ v.text).startsWith "^" = true := by
  rw [startsWith_eq]
  simp

-- An expression that does not begin with a star is no wildcard.
theorem not_wildcard {s : String} {c : Char} {rest : List Char} (h : s.toList = c :: rest)
    (hc : c ≠ '*') : ¬(s = "" ∨ s = "*") := by
  rintro (rfl | rfl)
  · cases h
  · exact hc (List.cons.inj h).1.symm

theorem isspace_symbol (op : Operator) : ∀ c ∈ op.symbol.toList, Text.isspace c = false := by
  have hall : op.symbol.toList.all fun c => !Text.isspace c := by
    cases op <;> rfl
  intro c hc
  simpa using List.all_eq_true.mp hall c hc

theorem isspace_caret : ∀ c ∈ "^".toList, Text.isspace c = false := by
  intro c hc
  obtain rfl := List.mem_singleton.mp hc
  rfl

theorem text_not_wildcard : ¬(v.text = "" ∨ v.text = "*") := by
  obtain ⟨c, rest, hcons, hc⟩ := v.exists_cons
  refine not_wildcard hcons ?_
  rintro rfl
  exact absurd hc (by decide)

theorem symbol_not_wildcard (op : Operator) : ¬(op.symbol ++ v.text = "" ∨ op.symbol ++ v.text = "*") := by
  cases op <;> exact not_wildcard (by rw [String.toList_append]; rfl) (by decide)

theorem caret_not_wildcard : ¬("^" ++ v.text = "" ∨ "^" ++ v.text = "*") :=
  not_wildcard (by rw [String.toList_append]; rfl) (by decide)

end Operators

section Checkers

open Plugins (checkVersionCompatibility)

variable {v core : VersionText}

-- What the registry's checker answers.
theorem check_exact : checkVersionCompatibility v.text core.text =
    .ok (core.text.startsWith v.text || core.numbers = v.numbers) := by
  have hfind : Plugins.operators.find? (fun op => v.text.startsWith op) = none := find_operator_none
  unfold checkVersionCompatibility
  rw [if_neg text_not_wildcard]
  dsimp only
  rw [v.strip_text, not_startsWith_caret, hfind, parseVersion_text, parseVersion_text]
  rfl

theorem check_compare (op : Operator) : checkVersionCompatibility (op.symbol ++ v.text) core.text =
    .ok ((Plugins.compareVersions (some op.symbol) core.numbers v.numbers).getD false) := by
  have hfind : Plugins.operators.find? (fun o => (op.symbol ++ v.text).startsWith o) = some op.symbol :=
    find_operator op
  unfold checkVersionCompatibility
  rw [if_neg (symbol_not_wildcard op)]
  dsimp only
  rw [v.strip_append (isspace_symbol op), symbol_not_caret, hfind]
  dsimp only
  rw [drop_append rfl, v.strip_text, parseVersion_text, parseVersion_text]
  cases op <;> rfl

theorem check_caret : checkVersionCompatibility ("^" ++ v.text) core.text =
    .ok (core.major = v.major ∧ v.numbers ≤ core.numbers) := by
  have hdrop : (("^" ++ v.text).drop 1).toString = v.text := drop_append rfl
  unfold checkVersionCompatibility
  rw [if_neg caret_not_wildcard]
  dsimp only
  rw [v.strip_append isspace_caret, caret_startsWith, hdrop, v.strip_text, parseVersion_text,
    parseVersion_text]
  change Except.ok (decide (some core.major = some v.major ∧ v.numbers ≤ core.numbers)) = _
  simp only [Option.some.injEq]

-- What the checker of the SDK answers.
theorem isCompatible_exact : isCompatible v.text core.text =
    .ok (compareVersions "==" core.version v.version) := by
  unfold isCompatible
  rw [v.strip_text, if_neg text_not_wildcard]
  dsimp only
  rw [not_startsWith_caret, find_operator_none, parse_text, parse_text]
  rfl

theorem isCompatible_compare (op : Operator) : isCompatible (op.symbol ++ v.text) core.text =
    .ok (compareVersions op.symbol core.version v.version) := by
  unfold isCompatible
  rw [v.strip_append (isspace_symbol op), if_neg (symbol_not_wildcard op)]
  dsimp only
  rw [symbol_not_caret, find_operator]
  dsimp only
  rw [drop_append rfl, v.strip_text, parse_text, parse_text]
  rfl

theorem isCompatible_caret : isCompatible ("^" ++ v.text) core.text =
    .ok (v.version.asTuple ≤ core.version.asTuple ∧
      core.version.asTuple < v.limit.version.asTuple) := by
  have hdrop : (("^" ++ v.text).drop 1).toString = v.text := drop_append rfl
  have hparse (w : VersionText) : Version.parse w.text = .ok w.version := parse_text
  have hbind (w : Version) (next : Version → Except VersionError Bool) :
      (Except.ok w >>= next) = next w := rfl
  unfold isCompatible
  rw [v.strip_append isspace_caret, if_neg caret_not_wildcard]
  dsimp only
  rw [hparse, hbind, caret_startsWith, if_pos rfl, hdrop, v.strip_text, hparse, hbind,
    upperLimit_version, hparse, hbind]
  rfl

end Checkers

-- How far the range of a caret goes.
theorem before_limit_iff {v core : VersionText} : core.version.asTuple < v.limit.version.asTuple ↔
    if 0 < v.major then core.major ≤ v.major
    else if 0 < v.minor then core.major = 0 ∧ core.minor ≤ v.minor
    else core.major = 0 ∧ core.minor = 0 ∧ core.patch ≤ v.patch := by
  have hlimit (x y z : Nat) :
      (VersionText.three (.ofNat x) (.ofNat y) (.ofNat z)).version.asTuple =
        (⟨(VersionText.three (.ofNat x) (.ofNat y) (.ofNat z)).text, x, y, z, ""⟩ : Version).asTuple := by
    simp [VersionText.version, VersionText.major, VersionText.minor, VersionText.patch,
      VersionText.parts, Numeral.value_ofNat]
  unfold VersionText.limit
  split_ifs
  all_goals
    rw [hlimit, VersionText.version, asTuple_lt_iff, Precedes]
    dsimp only
    omega

-- Where the two checkers go the same way: the registry takes a version that the core's text begins
-- with for the same, and lets a caret with a zero in front go on to the end of the major version.
def Requirement.SameAt (core : VersionText) : Requirement → Prop
  | .any | .compare _ _ => True
  | .exact v => v.text.toList <+: core.text.toList → core.numbers = v.numbers
  | .caret v => v.major = 0 → core.major = 0 →
      if v.minor = 0 then core.numbers ≤ v.numbers else core.minor ≤ v.minor

theorem caret_agrees_iff (v core : VersionText) :
    ((core.major = v.major ∧ v.numbers ≤ core.numbers) ↔ v.numbers ≤ core.numbers ∧
      if 0 < v.major then core.major ≤ v.major
      else if 0 < v.minor then core.major = 0 ∧ core.minor ≤ v.minor
      else core.major = 0 ∧ core.minor = 0 ∧ core.patch ≤ v.patch) ↔
      (Requirement.caret v).SameAt core := by
  unfold Requirement.SameAt VersionText.numbers
  dsimp only
  rw [list_le_iff, list_le_iff]
  unfold Precedes
  dsimp only
  split_ifs <;> omega

-- Both checkers answer every documented expression for every version. The answers are the same
-- exactly when an exact version is no mere beginning of the core's, and a caret with a zero in front
-- meets no core beyond its narrow range in the same major version.
theorem checkers_agree_iff (requirement : Requirement) (core : VersionText) :
    ∃ registry sdk, Plugins.checkVersionCompatibility requirement.text core.text = .ok registry ∧
      isCompatible requirement.text core.text = .ok sdk ∧
      (registry = sdk ↔ requirement.SameAt core) := by
  cases requirement with
  | any => exact ⟨true, true, rfl, rfl, iff_of_true rfl trivial⟩
  | exact v =>
      refine ⟨_, _, check_exact, isCompatible_exact, ?_⟩
      have hsdk : compareVersions "==" core.version v.version = decide (core.numbers = v.numbers) :=
        decide_eq_decide.mpr asTuple_eq_iff
      rw [hsdk, Requirement.SameAt, ← String.startsWith_string_iff]
      by_cases hnumbers : core.numbers = v.numbers
      · simp [hnumbers]
      · simp [hnumbers]
  | compare op v =>
      refine ⟨_, _, check_compare op, isCompatible_compare op, iff_of_true ?_ trivial⟩
      cases op with
      | ge | le => exact decide_eq_decide.mpr (list_le_iff.trans asTuple_le_iff.symm)
      | gt | lt => exact decide_eq_decide.mpr (list_lt_iff.trans asTuple_lt_iff.symm)
      | eq => exact decide_eq_decide.mpr asTuple_eq_iff.symm
      | ne => exact decide_eq_decide.mpr (not_congr asTuple_eq_iff.symm)
  | caret v =>
      refine ⟨_, _, check_caret, isCompatible_caret, ?_⟩
      have hlower : v.version.asTuple ≤ core.version.asTuple ↔ v.numbers ≤ core.numbers :=
        asTuple_le_iff.trans list_le_iff.symm
      rw [decide_eq_decide, hlower, before_limit_iff]
      exact caret_agrees_iff v core

-- A patch number that goes on after the required one, and a minor version after a required 0.5.0.
theorem checkers_disagree :
    Plugins.checkVersionCompatibility "1.6.1" "1.6.10" = .ok true ∧
      isCompatible "1.6.1" "1.6.10" = .ok false ∧
      Plugins.checkVersionCompatibility "^0.5.0" "0.6.0" = .ok true ∧
      isCompatible "^0.5.0" "0.6.0" = .ok false := by
  decide +kernel

end YasinCore.Compatibility
