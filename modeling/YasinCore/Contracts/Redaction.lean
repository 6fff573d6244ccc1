import YasinCore.Library.Json
import YasinCore.Library.Replacement
import YasinCore.Library.Text

namespace YasinCore.Contracts

open YasinCore.Library

def isSpace (c : CodePoint) : Bool := Text.spaces.contains c.val

def stars : Str := .ofString "***"

section Patterns

-- Letters in upper case match those in lower case, and so do four letters outside ASCII.
def fold (c : CodePoint) : CodePoint :=
  if 0x41 ≤ c.val ∧ c.val ≤ 0x5a then Fin.ofNat _ (c.val + 32)
  else if c.val = 0x130 ∨ c.val = 0x131 then .ofChar 'i'
  else if c.val = 0x17f then .ofChar 's'
  else if c.val = 0x212a then .ofChar 'k'
  else c

-- token|secret|password|passwd|api[_-]?key|bearer|authorization
def keywords : List Str :=
  ["token", "secret", "password", "passwd", "api_key", "api-key", "apikey", "bearer",
    "authorization"].map Str.ofString

def isSeparator (c : CodePoint) : Bool := c = .ofChar ':' ∨ c = .ofChar '='

-- The keyword and the separator at the beginning of a text, and the rest.
def secretHead? (s : Str) : Option (Str × Str) := do
  let keyword ← keywords.find? fun keyword => (s.take keyword.length).map fold = keyword
  let after := s.drop keyword.length
  match after.dropWhile isSpace with
  | c :: rest =>
      if isSeparator c then
        some (s.take keyword.length ++ after.takeWhile isSpace ++ c :: rest.takeWhile isSpace,
          rest.dropWhile isSpace)
      else none
  | [] => none

def secretMatch (s : Str) : Option (Str × Str) := do
  let (head, word) ← secretHead? s
  if word = [] then none
  else some (head ++ stars, word.dropWhile fun c => !isSpace c)

def isTokenChar (c : CodePoint) : Bool :=
  (0x41 ≤ c.val && c.val ≤ 0x5a) || (0x61 ≤ c.val && c.val ≤ 0x7a) || (0x30 ≤ c.val && c.val ≤ 0x39) ||
    c = .ofChar '_' || c = .ofChar '-'

-- One part of a token and the dot after it.
def tokenPart? (s : Str) : Option Str :=
  match s.dropWhile isTokenChar with
  | c :: rest => if c = .ofChar '.' ∧ s.takeWhile isTokenChar ≠ [] then some rest else none
  | [] => none

def jwtMatch (s : Str) : Option (Str × Str) := do
  if s.take 3 ≠ Str.ofString "eyJ" then none
  let second ← tokenPart? (s.drop 3)
  let third ← tokenPart? second
  if third.takeWhile isTokenChar = [] then none
  else some (stars, third.dropWhile isTokenChar)

end Patterns

section Matches

-- A keyword and a separator with blanks around it.
def IsHead (head : Str) : Prop :=
  ∃ keyword before separator behind, head = keyword ++ before ++ separator :: behind ∧
    keyword.map fold ∈ keywords ∧ (∀ c ∈ before, isSpace c = true) ∧ isSeparator separator = true ∧
      ∀ c ∈ behind, isSpace c = true

-- The text is at its end, or at a blank.
def Ends (s : Str) : Prop := ∀ c ∈ s.head?, isSpace c = true

theorem not_isSpace_of_isSeparator {c : CodePoint} (h : isSeparator c = true) :
    isSpace c = false := by
  unfold isSeparator at h
  rcases of_decide_eq_true h with rfl | rfl
  · decide
  · decide

-- At most one keyword is found at the beginning of a text.
theorem find_keyword {keyword rest : Str} (h : keyword.map fold ∈ keywords) :
    (keywords.find? fun other => ((keyword ++ rest).take other.length).map fold = other) =
      some (keyword.map fold) := by
  have hbegins {other : Str} (ho : ((keyword ++ rest).take other.length).map fold = other) :
      other <+: (keyword ++ rest).map fold := by
    rw [← ho]
    exact (List.take_prefix _ _).map fold
  have hself : ((keyword ++ rest).take (keyword.map fold).length).map fold = keyword.map fold := by
    rw [List.length_map, List.take_left]
  have hfree : ∀ one ∈ keywords, ∀ other ∈ keywords, one <+: other → one = other := by decide
  cases hf : keywords.find? fun other => ((keyword ++ rest).take other.length).map fold = other with
  | none => exact (List.find?_eq_none.mp hf _ h (decide_eq_true hself)).elim
  | some other =>
      have hm := List.mem_of_find?_eq_some hf
      have hfound := List.find?_some hf
      have ho := of_decide_eq_true hfound
      rcases List.prefix_or_prefix_of_prefix (hbegins ho) (hbegins hself) with hp | hp
      · rw [hfree _ hm _ h hp]
      · rw [hfree _ h _ hm hp]

theorem dropWhile_blanks {blanks rest : Str} {c : CodePoint} (h : ∀ c ∈ blanks, isSpace c = true)
    (hc : isSpace c = false) : (blanks ++ c :: rest).dropWhile isSpace = c :: rest := by
  rw [List.dropWhile_append_of_pos h, List.dropWhile_cons_of_neg (by simp [hc])]

theorem takeWhile_blanks {blanks rest : Str} {c : CodePoint} (h : ∀ c ∈ blanks, isSpace c = true)
    (hc : isSpace c = false) : (blanks ++ c :: rest).takeWhile isSpace = blanks := by
  rw [List.takeWhile_append_of_pos h, List.takeWhile_cons_of_neg (by simp [hc]), List.append_nil]

theorem secretHead?_append {head rest : Str} {c : CodePoint} (h : IsHead head)
    (hc : isSpace c = false) : secretHead? (head ++ c :: rest) = some (head, c :: rest) := by
  obtain ⟨keyword, before, separator, behind, rfl, hk, hbefore, hs, hbehind⟩ := h
  have hseparator := not_isSpace_of_isSeparator hs
  unfold secretHead?
  simp only [List.append_assoc, List.cons_append]
  rw [find_keyword hk, Option.bind_eq_bind, Option.bind_some]
  simp only [List.length_map, List.take_left, List.drop_left, dropWhile_blanks hbefore hseparator,
    takeWhile_blanks hbefore hseparator, hs, if_true, takeWhile_blanks hbehind hc,
    dropWhile_blanks hbehind hc]

theorem secretHead?_spec {s head word : Str} (h : secretHead? s = some (head, word)) :
    IsHead head ∧ s = head ++ word ∧ ∀ c ∈ word.head?, isSpace c = false := by
  unfold secretHead? at h
  rw [Option.bind_eq_bind, Option.bind_eq_some_iff] at h
  obtain ⟨keyword, hf, h⟩ := h
  have hfound := List.find?_some hf
  have hk := of_decide_eq_true hfound
  dsimp only at h
  split at h
  · rename_i c rest hdrop
    split at h
    · rename_i hc
      obtain ⟨rfl, rfl⟩ := Prod.mk.inj (Option.some.inj h)
      refine ⟨⟨s.take keyword.length, _, c, _, rfl, ?_, ?_, hc, ?_⟩, ?_, ?_⟩
      · rw [hk]
        exact List.mem_of_find?_eq_some hf
      · exact fun d hd => List.mem_takeWhile_imp hd
      · exact fun d hd => List.mem_takeWhile_imp hd
      · have hafter := List.takeWhile_append_dropWhile (p := isSpace) (l := s.drop keyword.length)
        rw [hdrop] at hafter
        rw [List.append_assoc, List.append_assoc, List.cons_append,
          List.takeWhile_append_dropWhile, hafter, List.take_append_drop]
      · intro d hd
        have hnot := List.head?_dropWhile_not isSpace rest
        rw [Option.mem_def.mp hd] at hnot
        exact hnot
    · cases h
  · cases h

theorem star_notMem_head {head : Str} (h : IsHead head) : CodePoint.ofChar '*' ∉ head := by
  obtain ⟨keyword, before, separator, behind, rfl, hk, hbefore, hs, hbehind⟩ := h
  have hblank : isSpace (.ofChar '*') = false := by decide
  have hkeywords : ∀ keyword ∈ keywords, fold (.ofChar '*') ∉ keyword := by decide
  intro hm
  rw [List.mem_append, List.mem_append, List.mem_cons] at hm
  rcases hm with (hm | hm) | rfl | hm
  · exact hkeywords _ hk (List.mem_map_of_mem hm)
  · exact Bool.noConfusion ((hbefore _ hm).symm.trans hblank)
  · revert hs
    decide
  · exact Bool.noConfusion ((hbehind _ hm).symm.trans hblank)

-- A match is a keyword and a separator, and then everything up to the next blank.
theorem secretMatch_append {head rest : Str} {c : CodePoint} (h : IsHead head)
    (hc : isSpace c = false) : secretMatch (head ++ c :: rest) =
      some (head ++ stars, (c :: rest).dropWhile fun d => !isSpace d) := by
  unfold secretMatch
  rw [secretHead?_append h hc]
  rfl

theorem ends_dropWhile (s : Str) : Ends (s.dropWhile fun c => !isSpace c) := by
  intro c hc
  have hnot := List.head?_dropWhile_not (fun c => !isSpace c) s
  rw [Option.mem_def.mp hc] at hnot
  simpa using hnot

theorem secretMatch_spec {s text rest : Str} (h : secretMatch s = some (text, rest)) :
    ∃ head c tail, IsHead head ∧ isSpace c = false ∧ s = head ++ c :: tail ∧ text = head ++ stars ∧
      rest = (c :: tail).dropWhile fun d => !isSpace d := by
  unfold secretMatch at h
  rw [Option.bind_eq_bind, Option.bind_eq_some_iff] at h
  obtain ⟨⟨head, word⟩, hhead, h⟩ := h
  obtain ⟨his, hs, hword⟩ := secretHead?_spec hhead
  dsimp only at h
  split at h
  · cases h
  · rename_i hne
    obtain ⟨rfl, rfl⟩ := Prod.mk.inj (Option.some.inj h)
    obtain ⟨c, tail, rfl⟩ := List.exists_cons_of_ne_nil hne
    exact ⟨head, c, tail, his, hword c rfl, hs, rfl, rfl⟩

theorem secretMatch_shorter {s text rest : Str} (h : secretMatch s = some (text, rest)) :
    rest.length < s.length := by
  obtain ⟨head, c, tail, -, hc, rfl, -, rfl⟩ := secretMatch_spec h
  have hlength := List.length_dropWhile_le (fun d => !isSpace d) tail
  rw [List.dropWhile_cons_of_pos (by simp [hc]), List.length_append, List.length_cons]
  omega

def secretPattern : Pattern CodePoint := ⟨secretMatch, secretMatch_shorter⟩

-- Three parts with dots between them, the first one after its fixed beginning.
def IsJwt (token : Str) : Prop :=
  ∃ first second third, token = Str.ofString "eyJ" ++ (first ++ CodePoint.ofChar '.' ::
      (second ++ CodePoint.ofChar '.' :: third)) ∧
    (first ≠ [] ∧ ∀ c ∈ first, isTokenChar c = true) ∧
    (second ≠ [] ∧ ∀ c ∈ second, isTokenChar c = true) ∧
    third ≠ [] ∧ ∀ c ∈ third, isTokenChar c = true

theorem tokenPart?_append {part rest : Str} (hne : part ≠ []) (h : ∀ c ∈ part, isTokenChar c = true) :
    tokenPart? (part ++ CodePoint.ofChar '.' :: rest) = some rest := by
  have hdot : ¬isTokenChar (.ofChar '.') = true := by decide
  unfold tokenPart?
  rw [List.dropWhile_append_of_pos h, List.dropWhile_cons_of_neg hdot]
  dsimp only
  rw [List.takeWhile_append_of_pos h, List.takeWhile_cons_of_neg hdot, List.append_nil,
    if_pos ⟨rfl, hne⟩]

theorem tokenPart?_spec {s rest : Str} (h : tokenPart? s = some rest) :
    ∃ part, (part ≠ [] ∧ ∀ c ∈ part, isTokenChar c = true) ∧
      s = part ++ CodePoint.ofChar '.' :: rest := by
  unfold tokenPart? at h
  split at h
  · rename_i c tail hdrop
    split at h
    · rename_i hc
      obtain rfl := Option.some.inj h
      refine ⟨s.takeWhile isTokenChar, ⟨hc.2, fun d hd => List.mem_takeWhile_imp hd⟩, ?_⟩
      rw [← hc.1, ← hdrop, List.takeWhile_append_dropWhile]
    · cases h
  · cases h

theorem jwtMatch_append {token : Str} (h : IsJwt token) (rest : Str) :
    (jwtMatch (token ++ rest)).isSome := by
  obtain ⟨first, second, third, rfl, ⟨hf, hfirst⟩, ⟨hs, hsecond⟩, ht, hthird⟩ := h
  have hlength : (Str.ofString "eyJ").length = 3 := rfl
  have hnonempty : (third ++ rest).takeWhile isTokenChar ≠ [] := by
    rw [List.takeWhile_append_of_pos hthird]
    exact List.append_ne_nil_of_left_ne_nil ht _
  unfold jwtMatch
  simp only [List.append_assoc, List.cons_append]
  rw [← hlength, List.take_left, List.drop_left, if_neg (not_not_intro rfl), tokenPart?_append hf hfirst,
    Option.bind_eq_bind, Option.bind_some, tokenPart?_append hs hsecond, Option.bind_some,
    if_neg hnonempty]
  rfl

theorem jwtMatch_spec {s text rest : Str} (h : jwtMatch s = some (text, rest)) :
    text = stars ∧ ∃ token, IsJwt token ∧ s = token ++ rest := by
  unfold jwtMatch at h
  split at h
  · cases h
  · rename_i hstart
    rw [Option.bind_eq_bind, Option.bind_eq_some_iff] at h
    obtain ⟨after, hafter, h⟩ := h
    rw [Option.bind_eq_some_iff] at h
    obtain ⟨last, hlast, h⟩ := h
    obtain ⟨first, hfirst, hdrop⟩ := tokenPart?_spec hafter
    obtain ⟨second, hsecond, rfl⟩ := tokenPart?_spec hlast
    split at h
    · cases h
    · rename_i hne
      obtain ⟨rfl, rfl⟩ := Prod.mk.inj (Option.some.inj h)
      refine ⟨rfl, _, ⟨first, second, last.takeWhile isTokenChar, rfl, hfirst, hsecond, hne,
        fun c hc => List.mem_takeWhile_imp hc⟩, ?_⟩
      rw [← List.take_append_drop 3 s, not_not.mp hstart, hdrop]
      simp only [List.append_assoc, List.cons_append, List.takeWhile_append_dropWhile]

theorem jwtMatch_shorter {s text rest : Str} (h : jwtMatch s = some (text, rest)) :
    rest.length < s.length := by
  obtain ⟨-, token, ⟨first, second, third, rfl, -⟩, rfl⟩ := jwtMatch_spec h
  have hlength : (Str.ofString "eyJ").length = 3 := rfl
  rw [List.length_append, List.length_append, hlength]
  omega

def jwtPattern : Pattern CodePoint := ⟨jwtMatch, jwtMatch_shorter⟩

theorem star_notMem_jwt {token : Str} (h : IsJwt token) : CodePoint.ofChar '*' ∉ token := by
  obtain ⟨first, second, third, rfl, ⟨-, hfirst⟩, ⟨-, hsecond⟩, -, hthird⟩ := h
  have hstar : ¬isTokenChar (.ofChar '*') = true := by decide
  have hdot : CodePoint.ofChar '*' ≠ .ofChar '.' := by decide
  have hstart : CodePoint.ofChar '*' ∉ Str.ofString "eyJ" := by decide
  intro hm
  rw [List.mem_append, List.mem_append, List.mem_cons, List.mem_append, List.mem_cons] at hm
  rcases hm with hm | hm | hm | hm | hm | hm
  · exact hstart hm
  · exact hstar (hfirst _ hm)
  · exact hdot hm
  · exact hstar (hsecond _ hm)
  · exact hdot hm
  · exact hstar (hthird _ hm)

end Matches

end YasinCore.Contracts
