import Mathlib.Data.List.DropRight
import Mathlib.Data.String.Basic

namespace YasinCore.Library.Text

-- The code points that count as white space.
def spaces : List Nat :=
  [0x9, 0xa, 0xb, 0xc, 0xd, 0x1c, 0x1d, 0x1e, 0x1f, 0x20, 0x85, 0xa0, 0x1680, 0x2000, 0x2001, 0x2002,
    0x2003, 0x2004, 0x2005, 0x2006, 0x2007, 0x2008, 0x2009, 0x200a, 0x2028, 0x2029, 0x202f, 0x205f,
    0x3000]

-- The code points of the zeros; each of them starts a block of ten decimal digits.
def decimalZeros : List Nat :=
  [0x30, 0x660, 0x6f0, 0x7c0, 0x966, 0x9e6, 0xa66, 0xae6, 0xb66, 0xbe6, 0xc66, 0xce6, 0xd66, 0xde6,
    0xe50, 0xed0, 0xf20, 0x1040, 0x1090, 0x17e0, 0x1810, 0x1946, 0x19d0, 0x1a80, 0x1a90, 0x1b50,
    0x1bb0, 0x1c40, 0x1c50, 0xa620, 0xa8d0, 0xa900, 0xa9d0, 0xa9f0, 0xaa50, 0xabf0, 0xff10, 0x104a0,
    0x10d30, 0x11066, 0x110f0, 0x11136, 0x111d0, 0x112f0, 0x11450, 0x114d0, 0x11650, 0x116c0, 0x11730,
    0x118e0, 0x11950, 0x11c50, 0x11d50, 0x11da0, 0x16a60, 0x16ac0, 0x16b50, 0x1d7ce, 0x1d7d8, 0x1d7e2,
    0x1d7ec, 0x1d7f6, 0x1e140, 0x1e2f0, 0x1e950, 0x1fbf0]

-- The ranges of characters that are digits without being decimal, superscripts for example.
def otherDigits : List (Nat × Nat) :=
  [(0xb2, 0xb3), (0xb9, 0xb9), (0x1369, 0x1371), (0x19da, 0x19da), (0x2070, 0x2070), (0x2074, 0x2079),
    (0x2080, 0x2089), (0x2460, 0x2468), (0x2474, 0x247c), (0x2488, 0x2490), (0x24ea, 0x24ea),
    (0x24f5, 0x24fd), (0x24ff, 0x24ff), (0x2776, 0x277e), (0x2780, 0x2788), (0x278a, 0x2792),
    (0x10a40, 0x10a43), (0x10e60, 0x10e68), (0x11052, 0x1105a), (0x1f100, 0x1f10a)]

def isspace (c : Char) : Bool := spaces.contains c.toNat

def decimal? (c : Char) : Option Nat :=
  decimalZeros.findSome? fun base =>
    if base ≤ c.toNat ∧ c.toNat < base + 10 then some (c.toNat - base) else none

def isdigit (c : Char) : Bool :=
  (decimal? c).isSome || otherDigits.any fun range => range.1 ≤ c.toNat && c.toNat ≤ range.2

def strip (s : String) : String :=
  String.ofList ((s.toList.dropWhile isspace).rdropWhile isspace)

def split (sep : Char) (s : String) : List String := (s.toList.splitOn sep).map String.ofList

-- The same with at most one cut.
def splitOnce (sep : Char) (s : String) : List String :=
  match s.toList.dropWhile (· ≠ sep) with
  | [] => [s]
  | _ :: rest => [String.ofList (s.toList.takeWhile (· ≠ sep)), String.ofList rest]

theorem splitOnce_of_notMem {sep : Char} {s : String} (h : sep ∉ s.toList) : splitOnce sep s = [s] := by
  have hall : s.toList.dropWhile (· ≠ sep) = [] := by
    rw [List.dropWhile_eq_nil_iff]
    intro c hc
    simpa using fun he : c = sep => h (he ▸ hc)
  rw [splitOnce, hall]

-- The two pieces and the separator between them are the whole.
theorem splitOnce_of_mem {sep : Char} {s : String} (h : sep ∈ s.toList) :
    ∃ before after, splitOnce sep s = [before, after] ∧ before ++ String.singleton sep ++ after = s := by
  unfold splitOnce
  cases hrest : s.toList.dropWhile (· ≠ sep) with
  | nil =>
      have hall := List.dropWhile_eq_nil_iff.mp hrest sep h
      simp at hall
  | cons c rest =>
      refine ⟨_, _, rfl, String.toList_injective ?_⟩
      have hcut : c = sep := by
        have hhead := List.head?_dropWhile_not (· ≠ sep) s.toList
        rw [hrest] at hhead
        simpa using hhead
      have hwhole := List.takeWhile_append_dropWhile (p := (· ≠ sep)) (l := s.toList)
      rw [hrest, hcut] at hwhole
      simpa using hwhole

theorem splitOnce_suffix {sep : Char} {s piece : String} (h : piece ∈ (splitOnce sep s)[1]?) :
    piece.toList <:+ s.toList := by
  unfold splitOnce at h
  split at h
  · cases h
  · rename_i rest hrest
    obtain rfl := Option.some.inj h
    rw [String.toList_ofList]
    exact (hrest ▸ List.suffix_cons _ rest).trans (List.dropWhile_suffix _)

theorem splitOnce_subset {sep : Char} {s piece : String} (h : piece ∈ splitOnce sep s) :
    piece.toList ⊆ s.toList := by
  unfold splitOnce at h
  split at h
  · rw [List.mem_singleton.mp h]
    exact List.Subset.refl _
  · rename_i rest hrest
    rcases List.mem_pair.mp h with rfl | rfl
    · rw [String.toList_ofList]
      exact (List.takeWhile_sublist _).subset
    · rw [String.toList_ofList]
      exact ((hrest ▸ List.suffix_cons _ rest).trans (List.dropWhile_suffix _)).subset

theorem splitOnce_first (sep : Char) (s : String) :
    (splitOnce sep s)[0]?.getD "" = String.ofList (s.toList.takeWhile (· ≠ sep)) := by
  unfold splitOnce
  split
  · rename_i hnone
    have hwhole := List.takeWhile_append_dropWhile (p := (· ≠ sep)) (l := s.toList)
    rw [hnone, List.append_nil] at hwhole
    rw [hwhole, String.ofList_toList]
    rfl
  · rfl

theorem splitOnce_second (sep : Char) (s : String) :
    (splitOnce sep s)[1]?.getD "" = String.ofList (s.toList.dropWhile (· ≠ sep)).tail := by
  unfold splitOnce
  split
  · rename_i hnone
    rw [hnone]
    rfl
  · rename_i hrest
    rw [hrest]
    rfl

-- The pieces between runs of white space.
def words (s : String) : List String :=
  ((s.toList.splitOnP isspace).filter (· ≠ [])).map String.ofList

def allDigits (s : String) : Bool := !s.isEmpty && s.toList.all isdigit

-- Digits, with single underscores allowed between two of them.
def digits? (value : Nat) : List Char → Option Nat
  | [] => some value
  | c :: rest =>
      match decimal? c with
      | some digit => digits? (value * 10 + digit) rest
      | none =>
          match c, rest with
          | '_', next :: rest =>
              match decimal? next with
              | some digit => digits? (value * 10 + digit) rest
              | none => none
          | _, _ => none

def nat? : List Char → Option Nat
  | [] => none
  | c :: rest => (decimal? c).bind fun digit => digits? digit rest

-- int(s) for a text; none stands for the ValueError.
def int? (s : String) : Option Int :=
  match (strip s).toList with
  | '-' :: rest => (nat? rest).map fun n => -(n : Int)
  | '+' :: rest => (nat? rest).map Int.ofNat
  | cs => (nat? cs).map Int.ofNat

section Digits

variable {c : Char} {cs : List Char}

theorem decimal?_of_isDigit (h : c.isDigit) : decimal? c = some (c.toNat - 48) := by
  have hbounds : 48 ≤ c.toNat ∧ c.toNat ≤ 57 := Char.isDigit_iff_toNat.mp h
  unfold decimal? decimalZeros
  rw [List.findSome?_cons, if_pos (by omega)]

theorem isdigit_of_isDigit (h : c.isDigit) : isdigit c := by
  rw [isdigit, decimal?_of_isDigit h]
  rfl

theorem not_isspace_of_isDigit (h : c.isDigit) : isspace c = false := by
  have hbounds : 48 ≤ c.toNat ∧ c.toNat ≤ 57 := Char.isDigit_iff_toNat.mp h
  simp only [isspace, spaces, List.contains_eq_mem, List.mem_cons, List.not_mem_nil, or_false,
    decide_eq_false_iff_not]
  omega

theorem digits?_of_isDigit (h : ∀ c ∈ cs, c.isDigit) (value : Nat) :
    digits? value cs = some (Nat.ofDigitChars 10 cs value) := by
  induction cs generalizing value with
  | nil => rfl
  | cons c cs ih =>
      rw [digits?.eq_def]
      dsimp only
      rw [decimal?_of_isDigit (h c List.mem_cons_self)]
      dsimp only
      rw [ih fun other ho => h other (List.mem_cons_of_mem _ ho), Nat.ofDigitChars_cons, Nat.mul_comm]
      rfl

-- The number that plain digits denote.
theorem nat?_of_isDigit (hne : cs ≠ []) (h : ∀ c ∈ cs, c.isDigit) :
    nat? cs = some (Nat.ofDigitChars 10 cs 0) := by
  cases cs with
  | nil => exact absurd rfl hne
  | cons c cs =>
      rw [nat?, decimal?_of_isDigit (h c List.mem_cons_self), Option.bind_some,
        digits?_of_isDigit fun other ho => h other (List.mem_cons_of_mem _ ho), Nat.ofDigitChars_cons,
        Nat.mul_zero, Nat.zero_add]
      rfl

-- Among the first characters only the ten digits count as such.
theorem isDigit_of_ascii (hc : c.toNat < 128) (h : isdigit c) : c.isDigit := by
  have hzeros : ∀ base ∈ decimalZeros, base = 48 ∨ 128 ≤ base := by decide
  have hothers : ∀ range ∈ otherDigits, 128 ≤ range.1 := by decide
  have hbounds : 48 ≤ c.toNat ∧ c.toNat ≤ 57 := by
    rcases Bool.or_eq_true_iff.mp h with h | h
    · obtain ⟨digit, hd⟩ := Option.isSome_iff_exists.mp h
      obtain ⟨base, hbase, hd⟩ := List.exists_of_findSome?_eq_some hd
      obtain ⟨hrange, -⟩ := Option.ite_none_right_eq_some.mp hd
      rcases hzeros base hbase with rfl | hlarge
      · omega
      · omega
    · obtain ⟨range, hrange, hin⟩ := List.any_eq_true.mp h
      have hlarge := hothers range hrange
      have hlow : range.1 ≤ c.toNat := by simpa using (Bool.and_eq_true_iff.mp hin).1
      omega
  exact Char.isDigit_iff_toNat.mpr hbounds

theorem decimal?_isSome (hc : c.toNat < 128) : (decimal? c).isSome = c.isDigit := by
  refine Bool.eq_iff_iff.mpr ⟨fun h => isDigit_of_ascii hc ?_, fun h => ?_⟩
  · rw [isdigit, h, Bool.true_or]
  · rw [decimal?_of_isDigit h]
    rfl

theorem ofDigitChars_cons_zero (c : Char) (digits : List Char) : Nat.ofDigitChars 10 (c :: digits) 0 =
    10 ^ digits.length * (c.toNat - 48) + Nat.ofDigitChars 10 digits 0 := by
  rw [Nat.ofDigitChars_cons, Nat.ofDigitChars_eq_ofDigitChars_zero, Nat.mul_zero, Nat.zero_add]
  rfl

theorem ofDigitChars_lt {digits : List Char} (h : ∀ c ∈ digits, c.isDigit) :
    Nat.ofDigitChars 10 digits 0 < 10 ^ digits.length := by
  induction digits with
  | nil => decide
  | cons c digits ih =>
      obtain ⟨hc, hrest⟩ := List.forall_mem_cons.mp h
      have hlt := ih hrest
      have hbounds : 48 ≤ c.toNat ∧ c.toNat ≤ 57 := Char.isDigit_iff_toNat.mp hc
      have hdigit : c.toNat - 48 ≤ 9 := by omega
      have hle := Nat.mul_le_mul_left (10 ^ digits.length) hdigit
      rw [ofDigitChars_cons_zero, List.length_cons, Nat.pow_succ]
      omega

-- As many digits are read as the same number only if they are the same.
theorem ofDigitChars_inj {digits others : List Char} (h : ∀ c ∈ digits, c.isDigit)
    (ho : ∀ c ∈ others, c.isDigit) (hlength : digits.length = others.length)
    (he : Nat.ofDigitChars 10 digits 0 = Nat.ofDigitChars 10 others 0) : digits = others := by
  induction digits generalizing others with
  | nil => exact (List.length_eq_zero_iff.mp hlength.symm).symm
  | cons c digits ih =>
      obtain ⟨d, others, rfl⟩ := List.exists_cons_of_length_eq_add_one hlength.symm
      obtain ⟨hc, hrest⟩ := List.forall_mem_cons.mp h
      obtain ⟨hd, hrest'⟩ := List.forall_mem_cons.mp ho
      have hlengths : digits.length = others.length := Nat.succ.inj hlength
      rw [ofDigitChars_cons_zero, ofDigitChars_cons_zero, ← hlengths] at he
      have hlow := ofDigitChars_lt hrest
      have hlow' := ofDigitChars_lt hrest'
      rw [← hlengths] at hlow'
      have hpos : 0 < 10 ^ digits.length := Nat.pow_pos (by decide)
      have hhigh := congrArg (fun n => n / 10 ^ digits.length) he
      rw [Nat.mul_add_div hpos, Nat.mul_add_div hpos, Nat.div_eq_of_lt hlow, Nat.div_eq_of_lt hlow'] at hhigh
      have hsame : c.toNat = d.toNat := by
        have hbounds : 48 ≤ c.toNat ∧ c.toNat ≤ 57 := Char.isDigit_iff_toNat.mp hc
        have hbounds' : 48 ≤ d.toNat ∧ d.toNat ≤ 57 := Char.isDigit_iff_toNat.mp hd
        omega
      rw [hsame] at he
      obtain rfl := Char.toNat_inj.mp hsame
      rw [ih hrest hrest' hlengths (Nat.add_left_cancel he)]

end Digits

theorem strip_eq_self {s : String} (h : ∀ c ∈ s.toList, isspace c = false) : strip s = s := by
  have hfront : s.toList.dropWhile isspace = s.toList := by
    cases hs : s.toList with
    | nil => rfl
    | cons c cs => rw [List.dropWhile_cons_of_neg (by simp [h c (by simp [hs])])]
  have hback : s.toList.rdropWhile isspace = s.toList := by
    refine List.rdropWhile_eq_self_iff.mpr fun hne => ?_
    simp [h _ (List.getLast_mem hne)]
  rw [strip, hfront, hback, String.ofList_toList]

theorem int?_of_isDigit {s : String} (hne : s.toList ≠ []) (h : ∀ c ∈ s.toList, c.isDigit) :
    int? s = some (Nat.ofDigitChars 10 s.toList 0 : Int) := by
  have hstrip : strip s = s := strip_eq_self fun c hc => not_isspace_of_isDigit (h c hc)
  have hnat := nat?_of_isDigit hne h
  obtain ⟨c, rest, hcons⟩ := List.exists_cons_of_ne_nil hne
  have hdigit : c.isDigit := h c (by simp [hcons])
  rw [int?, hstrip]
  split
  · rename_i hminus
    rw [hminus] at hcons
    cases hcons
    cases hdigit
  · rename_i hplus
    rw [hplus] at hcons
    cases hcons
    cases hdigit
  · rw [hnat]
    rfl

theorem int?_toString (n : Nat) : int? (toString n) = some (n : Int) := by
  have hlist : (toString n).toList = Nat.toDigits 10 n := by
    rw [Nat.toString_eq_ofList_toDigits, String.toList_ofList]
  rw [int?_of_isDigit, hlist, Nat.ofDigitChars_ten_toDigits]
  · rw [hlist]
    exact Nat.toDigits_ne_nil
  · rw [hlist]
    exact fun c hc => Nat.isDigit_of_mem_toDigits (by decide) (by decide) hc

def rstrip (s : String) : String := String.ofList (s.toList.rdropWhile isspace)

-- White space is stripped at the end alone from a text that begins with another character.
theorem strip_append {start rest : String} {c : Char} (hstart : ∀ c ∈ start.toList, isspace c = false)
    (hc : isspace c = false) :
    strip (start ++ String.singleton c ++ rest) = start ++ String.singleton c ++ rstrip rest := by
  have hfront (tail : List Char) :
      (start.toList ++ c :: tail).dropWhile isspace = start.toList ++ c :: tail := by
    cases hs : start.toList with
    | nil => exact List.dropWhile_cons_of_neg (by simp [hc])
    | cons first more => exact List.dropWhile_cons_of_neg (by simp [hstart first (by simp [hs])])
  have hback (tail : List Char) : (start.toList ++ c :: tail).rdropWhile isspace =
      start.toList ++ c :: tail.rdropWhile isspace := by
    rw [← List.singleton_append, ← List.append_assoc]
    unfold List.rdropWhile
    rw [List.reverse_append, List.dropWhile_append]
    split
    · rename_i hall
      rw [List.isEmpty_iff] at hall
      rw [hall]
      simp [hc]
    · simp
  refine String.toList_injective ?_
  simp only [strip, rstrip, String.toList_append, String.toList_singleton, String.toList_ofList,
    List.append_assoc, List.singleton_append, hfront, hback]

theorem rstrip_eq_self {s : String} (h : ∀ c ∈ s.toList, isspace c = false) : rstrip s = s := by
  have hback : s.toList.rdropWhile isspace = s.toList := by
    refine List.rdropWhile_eq_self_iff.mpr fun hne => ?_
    simp [h _ (List.getLast_mem hne)]
  rw [rstrip, hback, String.ofList_toList]

theorem rstrip_strip (s : String) : rstrip (strip s) = strip s := by
  rw [rstrip, strip, String.toList_ofList, List.rdropWhile_idempotent]

-- Nothing is stripped from the end of a text that ends like a stripped one.
theorem rstrip_of_suffix {s piece : String} (hs : rstrip s = s) (h : piece.toList <:+ s.toList) :
    rstrip piece = piece := by
  have hwhole : s.toList.rdropWhile isspace = s.toList := by
    simpa [rstrip] using congrArg String.toList hs
  rw [rstrip, List.rdropWhile_eq_self_iff.mpr, String.ofList_toList]
  intro hne
  have hs : s.toList ≠ [] := fun he => hne (List.suffix_nil.mp (he ▸ h))
  rw [h.getLast hne]
  exact List.rdropWhile_eq_self_iff.mp hwhole hs

theorem split_intercalate {sep : Char} {pieces : List String} (h : ∀ piece ∈ pieces, sep ∉ piece.toList)
    (hne : pieces ≠ []) : split sep ((String.singleton sep).intercalate pieces) = pieces := by
  rw [split, String.toList_intercalate, String.toList_singleton, List.splitOn_intercalate]
  · rw [List.map_map]
    exact List.map_id'' (fun piece => String.ofList_toList) _
  · intro chars hc
    obtain ⟨piece, hp, rfl⟩ := List.mem_map.mp hc
    exact h piece hp
  · simpa using hne

-- The pieces with the separators between them are the whole.
theorem intercalate_split (sep : Char) (s : String) :
    (String.singleton sep).intercalate (split sep s) = s := by
  refine String.toList_injective ?_
  rw [String.toList_intercalate, split, List.map_map, String.toList_singleton]
  simp [Function.comp_def]

theorem split_of_notMem {sep : Char} {s : String} (h : sep ∉ s.toList) : split sep s = [s] := by
  rw [split, List.splitOn_eq_singleton h, List.map_singleton, String.ofList_toList]

theorem split_head (sep : Char) (s : String) :
    (split sep s)[0]? = some (String.ofList (s.toList.takeWhile (· ≠ sep))) := by
  by_cases hm : sep ∈ s.toList
  · obtain ⟨before, after, hs, hfree⟩ := List.eq_append_cons_of_mem hm
    have hbefore : (before ++ sep :: after).takeWhile (· ≠ sep) = before := by
      have hkeeps : ∀ c ∈ before, decide (c ≠ sep) := fun c hc =>
        decide_eq_true fun he => hfree (he ▸ hc)
      rw [List.takeWhile_append_of_pos hkeeps, List.takeWhile_cons_of_neg (by simp), List.append_nil]
    rw [split, hs, List.splitOn_append_cons_self_of_not_mem hfree, hbefore]
    rfl
  · have hall : s.toList.takeWhile (· ≠ sep) = s.toList :=
      List.takeWhile_eq_self_iff.mpr fun c hc => decide_eq_true fun he => hm (he ▸ hc)
    rw [split_of_notMem hm, hall, String.ofList_toList]
    rfl

theorem split_cons {sep : Char} {s : String} (hs : sep ∉ s.toList) (t : String) :
    split sep (s ++ String.singleton sep ++ t) = s :: split sep t := by
  have hlist : (s ++ String.singleton sep ++ t).toList = s.toList ++ sep :: t.toList := by simp
  rw [split, split, hlist, List.splitOn_append_cons_self_of_not_mem hs, List.map_cons,
    String.ofList_toList]

theorem split_pair {sep : Char} {s t : String} (hs : sep ∉ s.toList) (ht : sep ∉ t.toList) :
    split sep (s ++ String.singleton sep ++ t) = [s, t] := by
  have hpieces : ∀ piece ∈ [s, t], sep ∉ piece.toList := by
    intro piece hp
    rcases List.mem_pair.mp hp with rfl | rfl
    · exact hs
    · exact ht
  have hsplit := split_intercalate hpieces (List.cons_ne_nil _ _)
  rw [← hsplit]
  refine congrArg (split sep) (String.toList_injective ?_)
  simp

theorem strip_subset (s : String) : (strip s).toList ⊆ s.toList := by
  rw [strip, String.toList_ofList]
  intro c hc
  exact (List.dropWhile_sublist _).subset ((List.rdropWhile_prefix _ _).subset hc)

theorem subset_intercalate {α : Type} {sep piece : List α} {pieces : List (List α)} (h : piece ∈ pieces) :
    piece ⊆ sep.intercalate pieces := by
  induction pieces with
  | nil => cases h
  | cons first rest ih =>
      cases rest with
      | nil =>
          obtain rfl := List.mem_singleton.mp h
          simp
      | cons second rest =>
          rw [List.intercalate_cons_cons]
          rcases List.mem_cons.mp h with rfl | h
          · rw [List.append_assoc]
            exact List.subset_append_left _ _
          · exact List.subset_append_of_subset_right _ (ih h)

theorem mem_intercalate {α : Type} {sep : List α} {pieces : List (List α)} {a : α}
    (h : a ∈ sep.intercalate pieces) : a ∈ sep ∨ ∃ piece ∈ pieces, a ∈ piece := by
  induction pieces with
  | nil => cases h
  | cons first rest ih =>
      cases rest with
      | nil => exact .inr ⟨first, List.mem_cons_self, by simpa using h⟩
      | cons second rest =>
          rw [List.intercalate_cons_cons, List.mem_append, List.mem_append] at h
          rcases h with (h | h) | h
          · exact .inr ⟨first, List.mem_cons_self, h⟩
          · exact .inl h
          · exact (ih h).imp_right fun ⟨piece, hp, ha⟩ => ⟨piece, List.mem_cons_of_mem _ hp, ha⟩

theorem split_subset {sep : Char} {s piece : String} (h : piece ∈ split sep s) :
    piece.toList ⊆ s.toList := by
  obtain ⟨cs, hcs, rfl⟩ := List.mem_map.mp h
  rw [String.toList_ofList]
  have hwhole : [sep].intercalate (s.toList.splitOn sep) = s.toList := List.intercalate_splitOn sep
  rw [← hwhole]
  exact subset_intercalate hcs

def startsWith (start s : String) : Bool := start.toList.isPrefixOf s.toList

theorem startsWith_iff {start s : String} : startsWith start s ↔ ∃ rest, start ++ rest = s := by
  rw [startsWith, List.isPrefixOf_iff_prefix]
  constructor
  · rintro ⟨rest, h⟩
    refine ⟨String.ofList rest, String.toList_injective ?_⟩
    rw [String.toList_append, String.toList_ofList, h]
  · rintro ⟨rest, rfl⟩
    rw [String.toList_append]
    exact List.prefix_append _ _

theorem split_injective (sep : Char) : Function.Injective (split sep) := by
  intro s t h
  rw [← intercalate_split sep s, h, intercalate_split]

theorem split_append (sep : Char) (s t : String) :
    split sep (s ++ String.singleton sep ++ t) = split sep s ++ split sep t := by
  have hlist : (s ++ String.singleton sep ++ t).toList = s.toList ++ sep :: t.toList := by simp
  rw [split, hlist, List.splitOn_append_cons_self, List.map_append]
  rfl

theorem intercalate_append {α : Type} (sep : List α) {first second : List (List α)} (hf : first ≠ [])
    (hs : second ≠ []) :
    sep.intercalate (first ++ second) = sep.intercalate first ++ sep ++ sep.intercalate second := by
  induction first with
  | nil => exact absurd rfl hf
  | cons piece first ih =>
      cases first with
      | nil =>
          obtain ⟨other, rest, rfl⟩ := List.exists_cons_of_ne_nil hs
          rw [List.singleton_append, List.intercalate_cons_cons, List.intercalate_singleton]
      | cons next first =>
          have hrest := ih (List.cons_ne_nil _ _)
          rw [List.cons_append] at hrest
          rw [List.cons_append, List.cons_append, List.intercalate_cons_cons, hrest,
            List.intercalate_cons_cons]
          simp only [List.append_assoc]

-- The pieces of one text begin those of another when it is all of the other or ends at a separator.
theorem split_prefix_iff {sep : Char} {s t : String} :
    split sep s <+: split sep t ↔ t = s ∨ startsWith (s ++ String.singleton sep) t := by
  rw [startsWith_iff]
  constructor
  · rintro ⟨rest, h⟩
    cases rest with
    | nil => exact .inl (split_injective sep (by rw [← h, List.append_nil]))
    | cons piece rest =>
        refine .inr ⟨(String.singleton sep).intercalate (piece :: rest), String.toList_injective ?_⟩
        have hne : (split sep s).map String.toList ≠ [] := by simp [split]
        rw [← intercalate_split sep t, ← h]
        conv_lhs => rw [← intercalate_split sep s]
        simp only [String.toList_append, String.toList_intercalate, List.map_append]
        rw [intercalate_append _ hne (by simp)]
  · rintro (rfl | ⟨rest, rfl⟩)
    · exact List.prefix_rfl
    · rw [split_append]
      exact List.prefix_append _ _

end YasinCore.Library.Text
