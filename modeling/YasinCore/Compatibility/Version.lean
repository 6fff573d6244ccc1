import YasinCore.Library.Text
import Mathlib.Data.Prod.Lex

namespace YasinCore.Compatibility

open YasinCore.Library

structure Version where
  raw : String
  major : Nat
  minor : Nat
  patch : Nat
  prerelease : String

-- int raises on a part without decimal digits.
inductive VersionError
  | invalidNumber (text : String)
  deriving DecidableEq

-- The number of a part of the release; what is missing or has no digits counts as zero.
def parsePart (part : Option String) : Except VersionError Nat :=
  match part with
  | none => .ok 0
  | some part =>
      let digits := part.toList.filter fun c => (Text.decimal? c).isSome
      if Text.allDigits part || digits ≠ [] then
        match Text.nat? digits with
        | some n => .ok n
        | none => .error (.invalidNumber (String.ofList digits))
      else .ok 0

def Version.parse (versionStr : String) : Except VersionError Version := do
  let cleanStr := String.ofList ((Text.strip versionStr).toList.dropWhile (· = 'v'))
  let pieces := Text.splitOnce '-' cleanStr
  let parts := Text.split '.' (pieces[0]?.getD "")
  let major ← parsePart parts[0]?
  let minor ← parsePart parts[1]?
  let patch ← parsePart parts[2]?
  return ⟨versionStr, major, minor, patch, pieces[1]?.getD ""⟩

-- A release comes after its prereleases.
def Version.asTuple (v : Version) : ℕ ×ₗ ℕ ×ₗ ℕ ×ₗ Bool ×ₗ String :=
  toLex (v.major, toLex (v.minor, toLex (v.patch, toLex (decide (v.prerelease = ""), v.prerelease))))

def operators : List String := [">=", "<=", ">", "<", "==", "!="]

def compareVersions (op : String) (core required : Version) : Bool :=
  match op with
  | ">=" => required.asTuple ≤ core.asTuple
  | "<=" => core.asTuple ≤ required.asTuple
  | ">" => required.asTuple < core.asTuple
  | "<" => core.asTuple < required.asTuple
  | "==" => core.asTuple = required.asTuple
  | "!=" => core.asTuple ≠ required.asTuple
  | _ => false

-- The version before which a caret range ends.
def upperLimit (required : Version) : String :=
  if 0 < required.major then toString (required.major + 1) ++ ".0.0"
  else if 0 < required.minor then "0." ++ toString (required.minor + 1) ++ ".0"
  else "0.0." ++ toString (required.patch + 1)

def isCompatible (versionExpr coreVersion : String) : Except VersionError Bool := do
  if versionExpr = "" ∨ Text.strip versionExpr = "*" then
    return true
  let expr := Text.strip versionExpr
  let core ← Version.parse coreVersion
  if expr.startsWith "^" then
    let required ← Version.parse (Text.strip (expr.drop 1).toString)
    let upper ← Version.parse (upperLimit required)
    return required.asTuple ≤ core.asTuple ∧ core.asTuple < upper.asTuple
  let op := operators.find? fun op => expr.startsWith op
  let required ← Version.parse
    (match op with
    | some op => Text.strip (expr.drop op.length).toString
    | none => expr)
  return compareVersions (op.getD "==") core required

end YasinCore.Compatibility
