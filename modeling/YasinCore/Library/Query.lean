import YasinCore.Library.Dict
import YasinCore.Library.Utf8
import Mathlib.Data.List.SplitBy

namespace YasinCore.Library.Query

def isAscii (c : Char) : Bool := c.toNat < 128

section Replace

-- The ranges of the bytes that can come after the first byte of a sequence.
def continuations (lead : Nat) : List (Nat × Nat) :=
  if 0xc2 ≤ lead ∧ lead ≤ 0xdf then [(0x80, 0xbf)]
  else if lead = 0xe0 then [(0xa0, 0xbf), (0x80, 0xbf)]
  else if lead = 0xed then [(0x80, 0x9f), (0x80, 0xbf)]
  else if 0xe1 ≤ lead ∧ lead ≤ 0xef then [(0x80, 0xbf), (0x80, 0xbf)]
  else if lead = 0xf0 then [(0x90, 0xbf), (0x80, 0xbf), (0x80, 0xbf)]
  else if 0xf1 ≤ lead ∧ lead ≤ 0xf3 then [(0x80, 0xbf), (0x80, 0xbf), (0x80, 0xbf)]
  else if lead = 0xf4 then [(0x80, 0x8f), (0x80, 0xbf), (0x80, 0xbf)]
  else []

-- The value of a sequence that goes on as it should, and what is left either way
def follow : List (Nat × Nat) → Nat → Bytes → Option Nat × Bytes
  | [], value, rest => (some value, rest)
  | _ :: _, _, [] => (none, [])
  | (low, high) :: ranges, value, b :: rest =>
      if low ≤ b.toNat ∧ b.toNat ≤ high then follow ranges (value * 64 + b.toNat % 64) rest
      else (none, b :: rest)

-- Every longest beginning of a sequence that does not go on is one replacement character. A byte at
-- least is taken in each step, so that their number is fuel enough.
def repair : Nat → Bytes → List Char
  | 0, _ | _ + 1, [] => []
  | fuel + 1, b :: rest =>
      if b.toNat < 0x80 then Char.ofNat b.toNat :: repair fuel rest
      else
        let ranges := continuations b.toNat
        match ranges, follow ranges (b.toNat % 2 ^ (6 - ranges.length)) rest with
        | _ :: _, (some value, rest) => Char.ofNat value :: repair fuel rest
        | _, (_, rest) => Char.ofNat 0xfffd :: repair fuel rest

-- bytes.decode("utf-8", "replace")
def decodeReplace (bytes : Bytes) : List Char :=
  match (Utf8.decode bytes).bind Utf8.chars? with
  | some chars => chars
  | none => repair bytes.length bytes

end Replace

section Parse

def byte (c : Char) : UInt8 := .ofNat c.toNat

-- A percent sign without two hexadecimal digits after it stands for itself.
def unquoteToBytes : List Char → Bytes
  | [] => []
  | '%' :: a :: b :: rest =>
      match Json.hexDigit? a, Json.hexDigit? b with
      | some high, some low => .ofNat (high * 16 + low) :: unquoteToBytes rest
      | _, _ => byte '%' :: unquoteToBytes (a :: b :: rest)
  | c :: rest => byte c :: unquoteToBytes rest

-- Only in the longest pieces of ASCII characters is anything decoded.
def unquote (s : List Char) : List Char :=
  if '%' ∉ s then s
  else (s.splitBy fun a b => isAscii a = isAscii b).flatMap fun piece =>
    if piece.all isAscii then decodeReplace (unquoteToBytes piece) else piece

def plusToSpace (s : List Char) : List Char := s.map fun c => if c = '+' then ' ' else c

-- A piece without an equals sign, or with nothing after it, is passed over.
def parseQsl (qs : List Char) : List (List Char × List Char) :=
  (qs.splitOn '&').filterMap fun piece =>
    match piece.dropWhile (· ≠ '=') with
    | _ :: c :: value =>
        some (unquote (plusToSpace (piece.takeWhile (· ≠ '='))), unquote (plusToSpace (c :: value)))
    | _ => none

variable {α β : Type} [DecidableEq α]

-- The values of each name, in order
def grouped (pairs : List (α × β)) : Dict α (List β) :=
  pairs.foldl (fun found pair => found.set pair.1 ((found.get? pair.1).getD [] ++ [pair.2])) .empty

def parseQs (qs : List Char) : Dict (List Char) (List (List Char)) := grouped (parseQsl qs)

end Parse

section Quote

def upperHex (n : Nat) : Char := if n < 10 then Char.ofNat (48 + n) else Char.ofNat (55 + n)

def Unreserved (n : Nat) : Prop :=
  0x30 ≤ n ∧ n ≤ 0x39 ∨ 0x41 ≤ n ∧ n ≤ 0x5a ∨ 0x61 ≤ n ∧ n ≤ 0x7a ∨ n ∈ [0x2d, 0x2e, 0x5f, 0x7e]

instance (n : Nat) : Decidable (Unreserved n) := inferInstanceAs (Decidable (_ ∨ _))

def quoteByte (b : UInt8) : List Char :=
  if b = 0x20 then ['+']
  else if Unreserved b.toNat then [Char.ofNat b.toNat]
  else ['%', upperHex (b.toNat / 16), upperHex (b.toNat % 16)]

def quotePlus (s : List Char) : List Char := (s.flatMap String.utf8EncodeChar).flatMap quoteByte

def urlencode (pairs : List (List Char × List Char)) : List Char :=
  List.intercalate ['&'] (pairs.map fun pair => quotePlus pair.1 ++ '=' :: quotePlus pair.2)

end Quote

section RoundTrip

theorem hexDigit?_upperHex {n : Nat} (h : n < 16) : Json.hexDigit? (upperHex n) = some n := by
  revert n
  decide

theorem toNat_unreserved {n : Nat} (h : Unreserved n) : (Char.ofNat n).toNat = n := by
  refine toNat_ofNat_of_valid (.inl ?_)
  unfold Unreserved at h
  simp only [List.mem_cons, List.not_mem_nil, or_false] at h
  omega

-- What stands for a byte: characters in ASCII, none of them a separator.
theorem quoteByte_chars (b : UInt8) : ∀ c ∈ quoteByte b, c.toNat < 128 ∧ c ≠ '&' ∧ c ≠ '=' := by
  have hhex : ∀ n < 16, (upperHex n).toNat < 128 ∧ upperHex n ≠ '&' ∧ upperHex n ≠ '=' := by decide
  have hb : b.toNat < 256 := b.toNat_lt
  unfold quoteByte
  split
  · simp
  · split
    · rename_i h
      intro c hc
      obtain rfl := List.mem_singleton.mp hc
      have hn := toNat_unreserved h
      unfold Unreserved at h
      simp only [List.mem_cons, List.not_mem_nil, or_false] at h
      refine ⟨by omega, fun he => ?_, fun he => ?_⟩
      · have := congrArg Char.toNat he
        rw [hn, show '&'.toNat = 38 from rfl] at this
        omega
      · have := congrArg Char.toNat he
        rw [hn, show '='.toNat = 61 from rfl] at this
        omega
    · simp only [List.forall_mem_cons]
      exact ⟨by decide, hhex _ (by omega), hhex _ (by omega), fun _ h => absurd h List.not_mem_nil⟩

theorem unquoteToBytes_cons {c : Char} (h : c ≠ '%') (rest : List Char) :
    unquoteToBytes (c :: rest) = byte c :: unquoteToBytes rest := by
  rw [unquoteToBytes]
  exact fun _ _ _ he => absurd he h

theorem unquoteToBytes_quoteByte (b : UInt8) (rest : List Char) :
    unquoteToBytes (plusToSpace (quoteByte b) ++ rest) = b :: unquoteToBytes rest := by
  have hb : b.toNat < 256 := b.toNat_lt
  unfold quoteByte
  split
  · rename_i h
    rw [h]
    exact unquoteToBytes_cons (by decide) rest
  · split
    · rename_i h
      have hn := toNat_unreserved h
      have hne : ∀ c : Char, ¬Unreserved c.toNat → Char.ofNat b.toNat ≠ c := by
        rintro c hc rfl
        rw [hn] at hc
        exact hc h
      rw [plusToSpace, List.map_singleton, if_neg (hne '+' (by decide)), List.singleton_append,
        unquoteToBytes_cons (hne '%' (by decide)), byte, hn, UInt8.ofNat_toNat]
    · have hhex : ∀ n < 16, upperHex n ≠ '+' := by decide
      have hhigh : b.toNat / 16 < 16 := by omega
      have hlow : b.toNat % 16 < 16 := Nat.mod_lt _ (by decide)
      simp only [plusToSpace, List.map_cons, List.map_nil, if_neg (hhex _ hhigh), if_neg (hhex _ hlow),
        List.cons_append, List.nil_append]
      rw [if_neg (by decide), unquoteToBytes, hexDigit?_upperHex hhigh, hexDigit?_upperHex hlow]
      dsimp only
      rw [Nat.div_add_mod', UInt8.ofNat_toNat]

theorem unquoteToBytes_quoted (bytes : Bytes) :
    unquoteToBytes (plusToSpace (bytes.flatMap quoteByte)) = bytes := by
  induction bytes with
  | nil => rfl
  | cons b bytes ih =>
      rw [List.flatMap_cons, plusToSpace, List.map_append]
      exact (unquoteToBytes_quoteByte b _).trans (congrArg _ ih)

theorem utf8EncodeChar_ascii {c : Char} (h : isAscii c = true) : String.utf8EncodeChar c = [byte c] := by
  have hlt : c.val.toNat < 128 := of_decide_eq_true h
  unfold String.utf8EncodeChar
  dsimp only
  rw [if_pos (by omega)]
  rfl

theorem decodeReplace_utf8 (s : List Char) : decodeReplace (s.flatMap String.utf8EncodeChar) = s := by
  have hdecode : Utf8.decode (s.flatMap String.utf8EncodeChar) = some (s.map CodePoint.ofChar) :=
    Utf8.decode_eq_some_iff.mpr ⟨s, rfl, rfl⟩
  rw [decodeReplace, hdecode, Option.bind_some, Utf8.chars?_map]

theorem decodeReplace_ascii {s : List Char} (h : ∀ c ∈ s, isAscii c = true) :
    decodeReplace (s.map byte) = s := by
  have hbytes : s.map byte = s.flatMap String.utf8EncodeChar := by
    rw [List.flatMap_congr fun c hc => utf8EncodeChar_ascii (h c hc), List.map_eq_flatMap]
  rw [hbytes, decodeReplace_utf8]

theorem unquoteToBytes_plain {s : List Char} (h : '%' ∉ s) : unquoteToBytes s = s.map byte := by
  induction s with
  | nil => rfl
  | cons c s ih =>
      have hc : c ≠ '%' := fun he => h (he ▸ List.mem_cons_self)
      rw [unquoteToBytes_cons hc, ih fun hs => h (List.mem_cons_of_mem _ hs), List.map_cons]

-- A text in ASCII is decoded in one piece.
theorem unquote_ascii {s : List Char} (h : ∀ c ∈ s, isAscii c = true) :
    unquote s = decodeReplace (unquoteToBytes s) := by
  unfold unquote
  split
  · rename_i hplain
    rw [unquoteToBytes_plain hplain, decodeReplace_ascii h]
  · rename_i hpercent
    have hne : s ≠ [] := fun he => hpercent (he ▸ List.not_mem_nil)
    have hchain : s.IsChain fun a b => (decide (isAscii a = isAscii b)) = true :=
      (List.pairwise_of_forall_mem_list fun a ha b hb =>
        decide_eq_true ((h a ha).trans (h b hb).symm)).isChain
    rw [List.splitBy_of_isChain hne hchain, List.flatMap_singleton, if_pos (List.all_eq_true.mpr h)]

theorem quotePlus_chars (s : List Char) :
    ∀ c ∈ quotePlus s, isAscii c = true ∧ c ≠ '&' ∧ c ≠ '=' := by
  intro c hc
  obtain ⟨b, -, hb⟩ := List.mem_flatMap.mp hc
  obtain ⟨hascii, hsep⟩ := quoteByte_chars b c hb
  exact ⟨decide_eq_true hascii, hsep⟩

theorem unquote_quotePlus (s : List Char) : unquote (plusToSpace (quotePlus s)) = s := by
  have hascii : ∀ c ∈ plusToSpace (quotePlus s), isAscii c = true := by
    intro c hc
    obtain ⟨d, hd, rfl⟩ := List.mem_map.mp hc
    split
    · rfl
    · exact (quotePlus_chars s d hd).1
  rw [unquote_ascii hascii, quotePlus, unquoteToBytes_quoted, decodeReplace_utf8]

theorem quotePlus_ne_nil {s : List Char} (h : s ≠ []) : quotePlus s ≠ [] := by
  intro he
  have hback := unquote_quotePlus s
  rw [he] at hback
  exact h hback.symm

-- What a form encodes is parsed again, apart from values without a character.
theorem parseQsl_urlencode {pairs : List (List Char × List Char)} (h : ∀ pair ∈ pairs, pair.2 ≠ []) :
    parseQsl (urlencode pairs) = pairs := by
  have hfree : ∀ piece ∈ pairs.map fun pair => quotePlus pair.1 ++ '=' :: quotePlus pair.2, '&' ∉ piece := by
    intro piece hp hm
    obtain ⟨pair, -, rfl⟩ := List.mem_map.mp hp
    rcases List.mem_append.mp hm with hm | hm
    · exact (quotePlus_chars _ _ hm).2.1 rfl
    · rcases List.mem_cons.mp hm with hm | hm
      · exact absurd hm (by decide)
      · exact (quotePlus_chars _ _ hm).2.1 rfl
  cases pairs with
  | nil => rfl
  | cons first pairs =>
      rw [parseQsl, urlencode, List.splitOn_intercalate _ hfree (by simp), List.filterMap_map]
      refine (List.filterMap_congr fun pair hp => ?_).trans List.filterMap_some
      have hkeep : ∀ c ∈ quotePlus pair.1, decide (c ≠ '=') = true :=
        fun c hc => decide_eq_true (quotePlus_chars _ c hc).2.2
      have hvalue := quotePlus_ne_nil (h pair hp)
      dsimp only [Function.comp_apply]
      rw [List.dropWhile_append_of_pos hkeep, List.takeWhile_append_of_pos hkeep,
        List.dropWhile_cons_of_neg (by simp), List.takeWhile_cons_of_neg (by simp), List.append_nil]
      cases hq : quotePlus pair.2 with
      | nil => exact absurd hq hvalue
      | cons c value =>
          dsimp only
          rw [← hq, unquote_quotePlus, unquote_quotePlus]

theorem parseQs_urlencode {pairs : List (List Char × List Char)} (h : ∀ pair ∈ pairs, pair.2 ≠ []) :
    parseQs (urlencode pairs) = grouped pairs := by
  rw [parseQs, parseQsl_urlencode h]

end RoundTrip

end YasinCore.Library.Query
