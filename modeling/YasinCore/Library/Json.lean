import YasinCore.Library.Dict
import Mathlib.Data.List.Infix

namespace YasinCore.Library

-- A string is a sequence of code points, the surrogates among them.
abbrev CodePoint := Fin 0x110000

instance CodePoint.neZero : @NeZero Nat Zero.ofOfNat0 0x110000 := ⟨Nat.succ_ne_zero _⟩

abbrev Str := List CodePoint

instance Str.lawfulBEq : LawfulBEq Str := inferInstance

def CodePoint.ofChar (c : Char) : CodePoint :=
  ⟨c.toNat, by
    have hv := c.valid
    unfold UInt32.isValidChar Nat.isValidChar at hv
    unfold Char.toNat
    omega⟩

def Str.ofString (s : String) : Str := s.toList.map CodePoint.ofChar

def CodePoint.toChar? (c : CodePoint) : Option Char :=
  if c.val.isValidChar then some (Char.ofNat c.val) else none

-- The text that a string is, unless there is a surrogate in it.
def Str.toString? (s : Str) : Option String := (s.mapM CodePoint.toChar?).map String.ofList

theorem CodePoint.toChar?_ofChar (c : Char) : (CodePoint.ofChar c).toChar? = some c := by
  have hval : (CodePoint.ofChar c).val = c.toNat := rfl
  have hvalid : c.toNat.isValidChar := c.valid
  rw [CodePoint.toChar?, hval, Char.ofNat_toNat, if_pos hvalid]

theorem Str.toString?_ofString (s : String) : (Str.ofString s).toString? = some s := by
  have hchars (chars : List Char) :
      (chars.map CodePoint.ofChar).mapM CodePoint.toChar? = some chars := by
    induction chars with
    | nil => rfl
    | cons c chars ih => simp [CodePoint.toChar?_ofChar, ih]
  rw [Str.toString?, Str.ofString, hchars, Option.map_some, String.ofList_toList]

theorem Str.ofString_injective : Function.Injective Str.ofString := by
  intro s other h
  have htext := congrArg Str.toString? h
  rw [Str.toString?_ofString, Str.toString?_ofString] at htext
  exact Option.some.inj htext

-- A value that the encoder refuses carries the message of the refusal.
inductive Json (φ : Type)
  | null
  | bool (value : Bool)
  | int (value : Int)
  | float (value : φ)
  | str (value : Str)
  | list (items : List (Json φ))
  | dict (entries : List (Str × Json φ))
  | object (refusal : String)

-- The conversions between floating point numbers and their texts.
structure Floats (φ : Type) where
  text : φ → List Char
  value : List Char → φ

namespace Json

variable {φ : Type}

-- The text written up to a point, and why nothing more is written if the point is not the end.
structure Output where
  text : List Char
  refusal : Option String
  deriving DecidableEq

namespace Output

def emit (text : List Char) : Output := ⟨text, none⟩

def append (first second : Output) : Output :=
  match first.refusal with
  | none => ⟨first.text ++ second.text, second.refusal⟩
  | some _ => first

instance : Append Output := ⟨append⟩

end Output

section Encode

-- The characters with an escape of their own; a decoder also takes the solidus.
def escapes : List (CodePoint × Char) :=
  [(.ofChar '\\', '\\'), (.ofChar '"', '"'), (8, 'b'), (12, 'f'), (10, 'n'), (13, 'r'), (9, 't')]

def hexChar (n : Nat) : Char := if n < 10 then Char.ofNat (48 + n) else Char.ofNat (87 + n)

def escapeUnit (c : CodePoint) : List Char :=
  match Entries.lookup c escapes with
  | some e => ['\\', e]
  | none =>
      if 0x20 ≤ c.val ∧ c.val ≤ 0x7e then [Char.ofNat c.val]
      else ['\\', 'u', hexChar (c.val / 4096 % 16), hexChar (c.val / 256 % 16),
        hexChar (c.val / 16 % 16), hexChar (c.val % 16)]

-- The code units of a code point: what lies above the basic plane is written as a surrogate pair.
def units (c : CodePoint) : List CodePoint :=
  if c.val < 0x10000 then [c]
  else [Fin.ofNat _ (0xd800 + (c.val - 0x10000) / 1024), Fin.ofNat _ (0xdc00 + (c.val - 0x10000) % 1024)]

def strText (s : Str) : List Char := '"' :: (s.flatMap units).flatMap escapeUnit ++ ['"']

def intText : Int → List Char
  | .ofNat n => Nat.toDigits 10 n
  | .negSucc n => '-' :: Nat.toDigits 10 (n + 1)

def newline (indent level : Nat) : List Char := '\n' :: List.replicate (indent * level) ' '

mutual

def encode (floats : Floats φ) (indent level : Nat) : Json φ → Output
  | null => .emit ['n', 'u', 'l', 'l']
  | bool true => .emit ['t', 'r', 'u', 'e']
  | bool false => .emit ['f', 'a', 'l', 's', 'e']
  | int n => .emit (intText n)
  | float x => .emit (floats.text x)
  | str s => .emit (strText s)
  | list items =>
      if items.isEmpty then .emit ['[', ']']
      else
        .emit ['['] ++ encodeItems floats indent (level + 1) (newline indent (level + 1)) items ++
          .emit (newline indent level ++ [']'])
  | dict entries =>
      if entries.isEmpty then .emit ['{', '}']
      else
        .emit ['{'] ++ encodeEntries floats indent (level + 1) (newline indent (level + 1)) entries ++
          .emit (newline indent level ++ ['}'])
  | object refusal => ⟨[], some refusal⟩

def encodeItems (floats : Floats φ) (indent level : Nat) (sep : List Char) : List (Json φ) → Output
  | [] => .emit []
  | item :: items =>
      .emit sep ++ encode floats indent level item ++
        encodeItems floats indent level (',' :: newline indent level) items

def encodeEntries (floats : Floats φ) (indent level : Nat) (sep : List Char) :
    List (Str × Json φ) → Output
  | [] => .emit []
  | (key, value) :: entries =>
      .emit (sep ++ strText key ++ [':', ' ']) ++ encode floats indent level value ++
        encodeEntries floats indent level (',' :: newline indent level) entries

end

end Encode

section Decode

def isSpace (c : Char) : Bool := c ∈ [' ', '\t', '\n', '\r']

def skip (s : List Char) : List Char := s.dropWhile isSpace

def hexDigit? (c : Char) : Option Nat :=
  if '0' ≤ c ∧ c ≤ '9' then some (c.toNat - 48)
  else if 'a' ≤ c ∧ c ≤ 'f' then some (c.toNat - 87)
  else if 'A' ≤ c ∧ c ≤ 'F' then some (c.toNat - 55)
  else none

def hexUnit? (a b c d : Char) : Option CodePoint := do
  let a ← hexDigit? a
  let b ← hexDigit? b
  let c ← hexDigit? c
  let d ← hexDigit? d
  return Fin.ofNat _ (((a * 16 + b) * 16 + c) * 16 + d)

def unescape? (e : Char) : Option CodePoint :=
  ((escapes ++ [(CodePoint.ofChar '/', '/')]).find? fun entry => entry.2 = e).map Prod.fst

-- The inside of a string up to the closing quote, as code units.
def chars : List Char → Option (List CodePoint × List Char)
  | [] => none
  | '"' :: rest => some ([], rest)
  | '\\' :: 'u' :: a :: b :: c :: d :: rest => do
      let unit ← hexUnit? a b c d
      let (units, rest) ← chars rest
      return (unit :: units, rest)
  | '\\' :: e :: rest => do
      let unit ← unescape? e
      let (units, rest) ← chars rest
      return (unit :: units, rest)
  | c :: rest => do
      guard (0x20 ≤ c.toNat)
      let (units, rest) ← chars rest
      return (.ofChar c :: units, rest)

def IsHigh (c : CodePoint) : Prop := 0xd800 ≤ c.val ∧ c.val ≤ 0xdbff

def IsLow (c : CodePoint) : Prop := 0xdc00 ≤ c.val ∧ c.val ≤ 0xdfff

instance (c : CodePoint) : Decidable (IsHigh c) := inferInstanceAs (Decidable (_ ∧ _))

instance (c : CodePoint) : Decidable (IsLow c) := inferInstanceAs (Decidable (_ ∧ _))

-- A high surrogate and the low one after it make one code point.
def joinUnits : List CodePoint → Str
  | [] => []
  | [c] => [c]
  | c :: d :: rest =>
      if IsHigh c ∧ IsLow d then
        Fin.ofNat _ (0x10000 + (c.val - 0xd800) * 1024 + (d.val - 0xdc00)) :: joinUnits rest
      else c :: joinUnits (d :: rest)

def string (s : List Char) : Option (Str × List Char) :=
  (chars s).map fun result => (joinUnits result.1, result.2)

def sign (signs : List Char) : List Char → List Char × List Char
  | [] => ([], [])
  | c :: rest => if c ∈ signs then ([c], rest) else ([], c :: rest)

def whole : List Char → Option (List Char × List Char)
  | [] => none
  | '0' :: rest => some (['0'], rest)
  | s =>
      if s.takeWhile Char.isDigit = [] then none
      else some (s.takeWhile Char.isDigit, s.dropWhile Char.isDigit)

def fraction : List Char → List Char × List Char
  | '.' :: rest =>
      if rest.takeWhile Char.isDigit = [] then ([], '.' :: rest)
      else ('.' :: rest.takeWhile Char.isDigit, rest.dropWhile Char.isDigit)
  | s => ([], s)

def exponent : List Char → List Char × List Char
  | [] => ([], [])
  | e :: rest =>
      let signed := sign ['+', '-'] rest
      let digits := signed.2.takeWhile Char.isDigit
      if e ∈ ['e', 'E'] ∧ digits ≠ [] then (e :: signed.1 ++ digits, signed.2.dropWhile Char.isDigit)
      else ([], e :: rest)

def intValue (sign digits : List Char) : Int :=
  if sign = [] then Int.ofNat (Nat.ofDigitChars 10 digits 0)
  else -Int.ofNat (Nat.ofDigitChars 10 digits 0)

def number (floats : Floats φ) (s : List Char) : Option (Json φ × List Char) := do
  let (minus, s) := sign ['-'] s
  let (digits, s) ← whole s
  let (frac, s) := fraction s
  let (exp, s) := exponent s
  if frac = [] ∧ exp = [] then return (int (intValue minus digits), s)
  else return (float (floats.value (minus ++ digits ++ frac ++ exp)), s)

def literals (floats : Floats φ) : List (List Char × Json φ) :=
  [(['n', 'u', 'l', 'l'], null), (['t', 'r', 'u', 'e'], bool true),
    (['f', 'a', 'l', 's', 'e'], bool false),
    (['N', 'a', 'N'], float (floats.value ['N', 'a', 'N'])),
    (['I', 'n', 'f', 'i', 'n', 'i', 't', 'y'], float (floats.value ['I', 'n', 'f', 'i', 'n', 'i', 't', 'y'])),
    (['-', 'I', 'n', 'f', 'i', 'n', 'i', 't', 'y'],
      float (floats.value ['-', 'I', 'n', 'f', 'i', 'n', 'i', 't', 'y']))]

def literal (floats : Floats φ) (s : List Char) : Option (Json φ × List Char) :=
  (literals floats).findSome? fun entry =>
    if entry.1.isPrefixOf s then some (entry.2, s.drop entry.1.length) else none

mutual

-- Every level of nesting takes two steps and at least one character, so that twice the length of
-- a text is fuel enough for it.
def value (floats : Floats φ) : Nat → List Char → Option (Json φ × List Char)
  | 0, _ => none
  | fuel + 1, s =>
      match s with
      | '"' :: rest => (string rest).map fun result => (str result.1, result.2)
      | '{' :: rest =>
          match skip rest with
          | '}' :: rest => some (dict [], rest)
          | rest => (members floats fuel rest).map fun result =>
              (dict (result.1.foldl (fun entries entry => Entries.assign entry.1 entry.2 entries) []),
                result.2)
      | '[' :: rest =>
          match skip rest with
          | ']' :: rest => some (list [], rest)
          | rest => (items floats fuel rest).map fun result => (list result.1, result.2)
      | s => (literal floats s).or (number floats s)

def items (floats : Floats φ) : Nat → List Char → Option (List (Json φ) × List Char)
  | 0, _ => none
  | fuel + 1, s => do
      let (item, rest) ← value floats fuel s
      match skip rest with
      | ']' :: rest => return ([item], rest)
      | ',' :: rest =>
          let (others, rest) ← items floats fuel (skip rest)
          return (item :: others, rest)
      | _ => none

def members (floats : Floats φ) : Nat → List Char → Option (List (Str × Json φ) × List Char)
  | 0, _ => none
  | fuel + 1, s =>
      match s with
      | '"' :: rest => do
          let (key, rest) ← string rest
          match skip rest with
          | ':' :: rest =>
              let (item, rest) ← value floats fuel (skip rest)
              match skip rest with
              | '}' :: rest => return ([(key, item)], rest)
              | ',' :: rest =>
                  let (others, rest) ← members floats fuel (skip rest)
                  return ((key, item) :: others, rest)
              | _ => none
          | _ => none
      | _ => none

end

def decode (floats : Floats φ) (text : List Char) : Option (Json φ) := do
  let (result, rest) ← value floats (2 * text.length) (skip text)
  guard (skip rest = [])
  return result

end Decode

end Json

end YasinCore.Library
