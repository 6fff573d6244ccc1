import Mathlib.Computability.Language

namespace YasinCore.Library.Glob

-- The pieces of a shell pattern.
inductive Token
  | star
  | any
  | lit (c : Char)
  | oneOf (negated : Bool) (ranges : List (Char × Char))
  deriving DecidableEq

-- The ranges between brackets; a hyphen at either end stands for itself. A range that is empty takes
-- no character, as documented: where it bares an exclamation mark, as in [z-a!x], the mark is one of
-- the characters and does not negate the set, which is what CPython makes of it.
def ranges : List Char → List (Char × Char)
  | low :: '-' :: high :: rest => (low, high) :: ranges rest
  | c :: rest => (c, c) :: ranges rest
  | [] => []

-- The text up to the closing bracket and the text after it. A bracket in first place does not close.
def untilBracket (seen : List Char) : List Char → Option (List Char × List Char)
  | [] => none
  | c :: rest => if c = ']' then some (seen.reverse, rest) else untilBracket (c :: seen) rest

def bracket (pattern : List Char) : Option (Token × List Char) :=
  let (negated, body) :=
    match pattern with
    | '!' :: rest => (true, rest)
    | _ => (false, pattern)
  let found :=
    match body with
    | ']' :: rest => untilBracket [']'] rest
    | _ => untilBracket [] body
  found.map fun (seq, rest) => (.oneOf negated (ranges seq), rest)

-- The pieces of the pattern, with the length of the text as fuel. An unclosed bracket is literal.
def parse : Nat → List Char → List Token
  | _, [] => []
  | 0, _ => []
  | fuel + 1, '*' :: rest => .star :: parse fuel rest
  | fuel + 1, '?' :: rest => .any :: parse fuel rest
  | fuel + 1, '[' :: rest =>
      match bracket rest with
      | some (token, rest) => token :: parse fuel rest
      | none => .lit '[' :: parse fuel rest
  | fuel + 1, c :: rest => .lit c :: parse fuel rest

def tokens (pattern : String) : List Token := parse pattern.toList.length pattern.toList

def inRanges (ranges : List (Char × Char)) (c : Char) : Bool :=
  ranges.any fun range => range.1 ≤ c && c ≤ range.2

-- Whether a piece other than the star takes the character.
def Token.accepts : Token → Char → Bool
  | .star, _ => false
  | .any, _ => true
  | .lit c, d => c = d
  | .oneOf negated ranges, c => inRanges ranges c != negated

def matchTokens : List Token → List Char → Bool
  | [], text => text.isEmpty
  | .star :: pattern, text => text.tails.any (matchTokens pattern)
  | _ :: _, [] => false
  | token :: pattern, c :: text => token.accepts c && matchTokens pattern text

-- fnmatch.fnmatchcase
def fnmatchcase (name pattern : String) : Bool := matchTokens (tokens pattern) name.toList

def Token.language : Token → Language Char
  | .star => (Set.univ : Set (List Char))
  | token => {text | ∃ c, token.accepts c ∧ text = [c]}

-- The texts a pattern stands for, piece after piece.
def language (pattern : String) : Language Char := ((tokens pattern).map Token.language).prod

section Matching

variable {pattern : List Token} {text : List Char}

theorem mem_star_mul {rest : Language Char} :
    text ∈ Token.star.language * rest ↔ ∃ suffix, suffix <:+ text ∧ suffix ∈ rest := by
  rw [Language.mem_mul]
  constructor
  · rintro ⟨start, _, suffix, hs, rfl⟩
    exact ⟨suffix, List.suffix_append start suffix, hs⟩
  · rintro ⟨suffix, ⟨start, rfl⟩, hs⟩
    exact ⟨start, trivial, suffix, hs, rfl⟩

theorem mem_one_mul {token : Token} {rest : Language Char} (hne : token ≠ .star) :
    text ∈ token.language * rest ↔ ∃ c tail, text = c :: tail ∧ token.accepts c ∧ tail ∈ rest := by
  have hlang : token.language = {text | ∃ c, token.accepts c ∧ text = [c]} := by
    cases token with
    | star => exact absurd rfl hne
    | any | lit | oneOf => rfl
  rw [Language.mem_mul, hlang]
  constructor
  · rintro ⟨_, ⟨c, hc, rfl⟩, tail, ht, rfl⟩
    exact ⟨c, tail, rfl, hc, ht⟩
  · rintro ⟨c, tail, rfl, hc, ht⟩
    exact ⟨[c], ⟨c, hc, rfl⟩, tail, ht, rfl⟩

-- The matcher decides the language, piece by piece.
theorem matchTokens_iff : matchTokens pattern text ↔ text ∈ (pattern.map Token.language).prod := by
  induction pattern generalizing text with
  | nil => simp [matchTokens, Language.mem_one]
  | cons token rest ih =>
      rw [List.map_cons, List.prod_cons]
      by_cases hs : token = .star
      · subst hs
        simp only [matchTokens, mem_star_mul, List.any_eq_true, List.mem_tails, ih]
      · rw [mem_one_mul hs]
        have hstep (c : Char) (tail : List Char) :
            matchTokens (token :: rest) (c :: tail) = (token.accepts c && matchTokens rest tail) := by
          cases token with
          | star => exact absurd rfl hs
          | any | lit | oneOf => rfl
        have hnil : matchTokens (token :: rest) [] = false := by
          cases token with
          | star => exact absurd rfl hs
          | any | lit | oneOf => rfl
        cases text with
        | nil => simp [hnil]
        | cons c tail => simp [hstep, ih]

end Matching

theorem fnmatchcase_iff {name pattern : String} :
    fnmatchcase name pattern ↔ name.toList ∈ language pattern := matchTokens_iff

-- Membership is decided by the matcher, never by unfolding the language.
attribute [irreducible] language

-- A text without the three special characters.
def Plain (text : String) : Prop := ∀ c ∈ text.toList, c ≠ '*' ∧ c ≠ '?' ∧ c ≠ '['

theorem parse_plain {text : List Char} {fuel : Nat} (hf : text.length ≤ fuel)
    (h : ∀ c ∈ text, c ≠ '*' ∧ c ≠ '?' ∧ c ≠ '[') : parse fuel text = text.map .lit := by
  induction text generalizing fuel with
  | nil => cases fuel <;> rfl
  | cons c rest ih =>
      cases fuel with
      | zero => simp at hf
      | succ fuel =>
          have hc := h c List.mem_cons_self
          rw [parse, ih (by simpa using hf) fun d hd => h d (List.mem_cons_of_mem _ hd)]
          · rfl
          · exact hc.1
          · exact hc.2.1
          · exact hc.2.2

theorem matchTokens_lit {text other : List Char} :
    matchTokens (text.map .lit) other ↔ other = text := by
  induction text generalizing other with
  | nil => simp [matchTokens]
  | cons c rest ih =>
      cases other with
      | nil => simp [matchTokens]
      | cons d tail =>
          rw [List.cons.injEq, eq_comm (a := d)]
          simp [matchTokens, Token.accepts, ih]

-- Without special characters a pattern stands for itself only.
theorem fnmatchcase_plain {name pattern : String} (h : Plain pattern) :
    fnmatchcase name pattern ↔ name = pattern := by
  rw [fnmatchcase, tokens, parse_plain le_rfl h, matchTokens_lit, String.toList_inj]

end YasinCore.Library.Glob
