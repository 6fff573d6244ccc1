import YasinCore.Library.Json
import Mathlib.Tactic.IntervalCases
import Mathlib.Tactic.NormNum

namespace YasinCore.Library.Json

variable {φ : Type} {rest : List Char}

section Strings

theorem hexDigit?_hexChar {n : Nat} (h : n < 16) : hexDigit? (hexChar n) = some n := by
  have hall : ∀ n, n < 16 → hexDigit? (hexChar n) = some n := by decide
  exact hall n h

theorem ofChar_ofNat {c : CodePoint} (h : c.val ≤ 0x7e) : CodePoint.ofChar (Char.ofNat c.val) = c := by
  have hvalid : c.val.isValidChar := .inl (by omega)
  refine Fin.ext ?_
  unfold CodePoint.ofChar Char.ofNat
  rw [dif_pos hvalid]
  rfl

theorem chars_named {c : CodePoint} {e : Char} (h : (c, e) ∈ escapes) :
    chars ('\\' :: e :: rest) = (chars rest).map fun result => (c :: result.1, result.2) := by
  have hnamed : ∀ entry ∈ escapes, entry.2 ≠ 'u' ∧ unescape? entry.2 = some entry.1 := by decide
  obtain ⟨hu, hunit⟩ := hnamed _ h
  rw [chars, hunit]
  · cases chars rest <;> rfl
  · simp [hu]

theorem chars_hex {c : CodePoint} (h : c.val < 0x10000) :
    chars ('\\' :: 'u' :: hexChar (c.val / 4096 % 16) :: hexChar (c.val / 256 % 16) ::
      hexChar (c.val / 16 % 16) :: hexChar (c.val % 16) :: rest) =
        (chars rest).map fun result => (c :: result.1, result.2) := by
  have hunit : hexUnit? (hexChar (c.val / 4096 % 16)) (hexChar (c.val / 256 % 16))
      (hexChar (c.val / 16 % 16)) (hexChar (c.val % 16)) = some c := by
    unfold hexUnit?
    rw [hexDigit?_hexChar (by omega), hexDigit?_hexChar (by omega), hexDigit?_hexChar (by omega),
      hexDigit?_hexChar (by omega)]
    refine congrArg some (Fin.ext ?_)
    simp only [Fin.ofNat]
    omega
  rw [chars, hunit]
  cases chars rest <;> rfl

theorem chars_plain {c : CodePoint} (hlow : 0x20 ≤ c.val) (hhigh : c.val ≤ 0x7e)
    (hnot : Entries.lookup c escapes = none) :
    chars (Char.ofNat c.val :: rest) = (chars rest).map fun result => (c :: result.1, result.2) := by
  have hquote : Char.ofNat c.val ≠ '"' := by
    intro he
    have hc : c = CodePoint.ofChar '"' := he ▸ (ofChar_ofNat hhigh).symm
    exact absurd (hc ▸ hnot) (by decide)
  have hslash : Char.ofNat c.val ≠ '\\' := by
    intro he
    have hc : c = CodePoint.ofChar '\\' := he ▸ (ofChar_ofNat hhigh).symm
    exact absurd (hc ▸ hnot) (by decide)
  have hnat : 0x20 ≤ (Char.ofNat c.val).toNat := by
    have hval := congrArg Fin.val (ofChar_ofNat hhigh)
    exact hlow.trans_eq hval.symm
  rw [chars, ofChar_ofNat hhigh]
  · cases chars rest <;> simp [guard, hnat]
  · exact hquote
  · exact fun _ _ _ _ _ he _ => hslash he
  · exact fun _ _ he _ => hslash he

-- Whatever way a code unit is escaped, a decoder reads it back.
theorem chars_escapeUnit {c : CodePoint} (h : c.val < 0x10000) :
    chars (escapeUnit c ++ rest) = (chars rest).map fun result => (c :: result.1, result.2) := by
  unfold escapeUnit
  cases hl : Entries.lookup c escapes with
  | some e => exact chars_named (Entries.mem_of_lookup hl)
  | none =>
      by_cases hplain : 0x20 ≤ c.val ∧ c.val ≤ 0x7e
      · rw [if_pos hplain]
        exact chars_plain hplain.1 hplain.2 hl
      · rw [if_neg hplain]
        exact chars_hex h

theorem units_lt (c : CodePoint) : ∀ unit ∈ units c, unit.val < 0x10000 := by
  intro unit hu
  unfold units at hu
  split at hu
  · obtain rfl := List.mem_singleton.mp hu
    assumption
  · simp only [List.mem_cons, List.not_mem_nil, or_false] at hu
    rcases hu with rfl | rfl
    · simp only [Fin.ofNat]
      omega
    · simp only [Fin.ofNat]
      omega

theorem chars_escaped (written : List CodePoint) (h : ∀ unit ∈ written, unit.val < 0x10000) :
    chars (written.flatMap escapeUnit ++ '"' :: rest) = some (written, rest) := by
  induction written with
  | nil => rfl
  | cons unit written ih =>
      obtain ⟨hunit, hwritten⟩ := List.forall_mem_cons.mp h
      rw [List.flatMap_cons, List.append_assoc, chars_escapeUnit hunit, ih hwritten]
      rfl

-- No high surrogate stands before a low one, so that reading joins only what writing split.
def Paired (s : Str) : Prop := s.IsChain fun c d => ¬(IsHigh c ∧ IsLow d)

theorem paired_of_forall {s : Str} (h : ∀ c ∈ s, ¬IsHigh c) : Paired s :=
  have hpairs : s.Pairwise fun c d => ¬(IsHigh c ∧ IsLow d) :=
    List.pairwise_of_forall_mem_list fun c hc _ _ hpair => h c hc hpair.1
  hpairs.isChain

-- A text has no surrogates.
theorem paired_ofString (s : String) : Paired (.ofString s) := by
  refine paired_of_forall fun c hc hhigh => ?_
  obtain ⟨char, -, rfl⟩ := List.mem_map.mp hc
  have hvalid : char.toNat.isValidChar := char.valid
  obtain ⟨hlow, hle⟩ := hhigh
  have hlow : 0xd800 ≤ char.toNat := hlow
  have hle : char.toNat ≤ 0xdbff := hle
  unfold Nat.isValidChar at hvalid
  omega

theorem joinUnits_cons {c : CodePoint} {written : List CodePoint}
    (h : ∀ d ∈ written.head?, ¬(IsHigh c ∧ IsLow d)) : joinUnits (c :: written) = c :: joinUnits written := by
  cases written with
  | nil => rfl
  | cons d written => rw [joinUnits, if_neg (h d rfl)]

theorem joinUnits_pair {c : CodePoint} (h : ¬c.val < 0x10000) (written : List CodePoint) :
    joinUnits (units c ++ written) = c :: joinUnits written := by
  unfold units
  rw [if_neg h, List.cons_append, List.cons_append, List.nil_append, joinUnits, if_pos]
  · refine congrArg (· :: _) (Fin.ext ?_)
    simp only [Fin.ofNat]
    omega
  · unfold IsHigh IsLow
    simp only [Fin.ofNat]
    omega

theorem not_low_of_units {c d : CodePoint} {s : Str} (hc : IsHigh c) (hs : Paired (c :: s))
    (hd : d ∈ (s.flatMap units).head?) : ¬IsLow d := by
  cases s with
  | nil => cases hd
  | cons next s =>
      have hnext : ¬(IsHigh c ∧ IsLow next) := (List.isChain_cons_cons.mp hs).1
      rw [List.flatMap_cons] at hd
      unfold units at hd
      split at hd
      · obtain rfl := Option.some.inj hd
        exact fun hl => hnext ⟨hc, hl⟩
      · obtain rfl := Option.some.inj hd
        unfold IsLow
        simp only [Fin.ofNat]
        omega

theorem joinUnits_units {s : Str} (h : Paired s) : joinUnits (s.flatMap units) = s := by
  induction s with
  | nil => rfl
  | cons c s ih =>
      have hrest := ih h.of_cons
      rw [List.flatMap_cons]
      by_cases hc : c.val < 0x10000
      · have hunits : units c = [c] := if_pos hc
        rw [hunits, List.singleton_append, joinUnits_cons, hrest]
        exact fun d hd hpair => not_low_of_units hpair.1 h hd hpair.2
      · rw [joinUnits_pair hc, hrest]

-- A string comes back from its text.
theorem string_strText {s : Str} (h : Paired s) :
    string ((s.flatMap units).flatMap escapeUnit ++ '"' :: rest) = some (s, rest) := by
  have hlt : ∀ unit ∈ s.flatMap units, unit.val < 0x10000 := by
    intro unit hu
    obtain ⟨c, -, hc⟩ := List.mem_flatMap.mp hu
    exact units_lt c unit hc
  rw [string, chars_escaped _ hlt, Option.map_some, joinUnits_units h]

end Strings

section Numbers

-- The text starts, unless it is empty, with one of these characters.
def StartsWith (allowed : List Char) (text : List Char) : Prop := ∀ c ∈ text.head?, c ∈ allowed

-- What can come after a value inside of a document.
def stops : List Char := [',', ']', '}', ' ', '\t', '\n', '\r']

abbrev Stops (rest : List Char) : Prop := StartsWith stops rest

def Digits (digits : List Char) : Prop := digits ≠ [] ∧ ∀ c ∈ digits, c.isDigit = true

def IsWhole (digits : List Char) : Prop :=
  digits = ['0'] ∨ Digits digits ∧ digits.head? ≠ some '0'

def IsFraction (frac : List Char) : Prop := frac = [] ∨ ∃ digits, Digits digits ∧ frac = '.' :: digits

def IsSign (signs signed : List Char) : Prop := signed = [] ∨ ∃ c ∈ signs, signed = [c]

def IsExponent (exp : List Char) : Prop :=
  exp = [] ∨ ∃ e ∈ ['e', 'E'], ∃ signed digits,
    IsSign ['+', '-'] signed ∧ Digits digits ∧ exp = e :: signed ++ digits

theorem span_digits {digits : List Char} (hd : ∀ c ∈ digits, c.isDigit = true)
    (hr : ∀ c ∈ rest.head?, c.isDigit = false) :
    (digits ++ rest).takeWhile Char.isDigit = digits ∧ (digits ++ rest).dropWhile Char.isDigit = rest := by
  induction digits with
  | nil =>
      cases rest with
      | nil => exact ⟨rfl, rfl⟩
      | cons c rest =>
          have hc : c.isDigit = false := hr c rfl
          simp [hc]
  | cons c digits ih =>
      obtain ⟨hc, hdigits⟩ := List.forall_mem_cons.mp hd
      obtain ⟨htake, hdrop⟩ := ih hdigits
      simp [hc, htake, hdrop]

theorem StartsWith.no_digit {allowed : List Char} (h : StartsWith allowed rest)
    (hno : ∀ c ∈ allowed, c.isDigit = false) : ∀ c ∈ rest.head?, c.isDigit = false :=
  fun c hc => hno c (h c hc)

theorem StartsWith.not_mem {allowed other : List Char} {c : Char} (h : StartsWith allowed (c :: rest))
    (hd : ∀ c ∈ allowed, c ∉ other) : c ∉ other :=
  hd c (h c rfl)

theorem whole_text {digits : List Char} (h : IsWhole digits)
    (hr : StartsWith ('.' :: 'e' :: 'E' :: stops) rest) : whole (digits ++ rest) = some (digits, rest) := by
  rcases h with rfl | ⟨⟨hne, hd⟩, hzero⟩
  · rfl
  · obtain ⟨htake, hdrop⟩ := span_digits hd (hr.no_digit (by simp [stops]))
    cases digits with
    | nil => exact absurd rfl hne
    | cons c digits =>
        have hc : c ≠ '0' := fun he => hzero (he ▸ rfl)
        rw [List.cons_append] at htake hdrop ⊢
        rw [whole, if_neg, htake, hdrop]
        · rw [htake]
          exact List.cons_ne_nil _ _
        · exact fun he => List.cons_ne_nil _ _ he
        · exact fun _ he => hc (List.cons.inj he).1

theorem sign_text {signs signed digits : List Char} (h : IsSign signs signed)
    (hd : Digits digits) (hno : ∀ c ∈ signs, c.isDigit = false) :
    sign signs (signed ++ (digits ++ rest)) = (signed, digits ++ rest) := by
  rcases h with rfl | ⟨c, hc, rfl⟩
  · cases digits with
    | nil => exact absurd rfl hd.1
    | cons c digits =>
        have hc : c ∉ signs := fun hm => Bool.false_ne_true ((hno c hm).symm.trans
          (hd.2 c List.mem_cons_self))
        rw [List.nil_append, List.cons_append, sign, if_neg hc]
  · rw [List.singleton_append, sign, if_pos hc]

theorem fraction_text {frac : List Char} (h : IsFraction frac)
    (hr : StartsWith ('e' :: 'E' :: stops) rest) : fraction (frac ++ rest) = (frac, rest) := by
  rcases h with rfl | ⟨digits, ⟨hne, hd⟩, rfl⟩
  · cases rest with
    | nil => rfl
    | cons c rest =>
        have hc : c ∉ ['.'] := hr.not_mem (by simp [stops])
        rw [List.nil_append, fraction]
        exact fun _ he => hc (List.mem_singleton.mpr (List.cons.inj he).1)
  · obtain ⟨htake, hdrop⟩ := span_digits hd (hr.no_digit (by simp [stops]))
    rw [List.cons_append, fraction, htake, hdrop, if_neg hne]

theorem exponent_text {exp : List Char} (h : IsExponent exp) (hr : Stops rest) :
    exponent (exp ++ rest) = (exp, rest) := by
  rcases h with rfl | ⟨e, he, signed, digits, hs, ⟨hne, hd⟩, rfl⟩
  · cases rest with
    | nil => rfl
    | cons c rest =>
        have hc : c ∉ ['e', 'E'] := hr.not_mem (by simp [stops])
        exact if_neg fun h => hc h.1
  · obtain ⟨htake, hdrop⟩ := span_digits hd (hr.no_digit (by simp [stops]))
    have hsign : sign ['+', '-'] (signed ++ (digits ++ rest)) = (signed, digits ++ rest) :=
      sign_text hs ⟨hne, hd⟩ (by simp)
    rw [List.cons_append, List.cons_append, List.append_assoc, exponent, hsign]
    simp only [htake, hdrop]
    exact if_pos ⟨he, hne⟩

theorem IsWhole.digits {digits : List Char} (h : IsWhole digits) : Digits digits := by
  rcases h with rfl | ⟨hd, -⟩
  · exact ⟨by simp, by simp⟩
  · exact hd

theorem IsExponent.startsWith {exp : List Char} (h : IsExponent exp) (hr : Stops rest) :
    StartsWith ('e' :: 'E' :: stops) (exp ++ rest) := by
  rcases h with rfl | ⟨e, he, _, _, _, _, rfl⟩
  · exact fun c hc => List.mem_append_right ['e', 'E'] (hr c hc)
  · intro c hc
    obtain rfl := Option.some.inj hc
    exact List.mem_append_left stops he

theorem IsFraction.startsWith {frac : List Char} (h : IsFraction frac)
    (hr : StartsWith ('e' :: 'E' :: stops) rest) :
    StartsWith ('.' :: 'e' :: 'E' :: stops) (frac ++ rest) := by
  rcases h with rfl | ⟨_, _, rfl⟩
  · exact fun c hc => List.mem_cons_of_mem _ (hr c hc)
  · intro c hc
    obtain rfl := Option.some.inj hc
    exact List.mem_cons_self

-- A number in the grammar of the format is read as a whole, up to what stops it.
theorem number_text (floats : Floats φ) {minus digits frac exp : List Char} (hm : IsSign ['-'] minus)
    (hd : IsWhole digits) (hf : IsFraction frac) (he : IsExponent exp) (hr : Stops rest) :
    number floats (minus ++ (digits ++ (frac ++ (exp ++ rest)))) =
      some (if frac = [] ∧ exp = [] then int (intValue minus digits)
        else float (floats.value (minus ++ digits ++ frac ++ exp)), rest) := by
  have hexp := he.startsWith hr
  have hsign : sign ['-'] (minus ++ (digits ++ (frac ++ (exp ++ rest)))) = (minus, _) :=
    sign_text hm hd.digits (by simp)
  have hwhole := whole_text hd (hf.startsWith hexp)
  have hfrac := fraction_text hf hexp
  have hexponent := exponent_text he hr
  unfold number
  simp only [hsign, hwhole, hfrac, hexponent, Option.bind_eq_bind, Option.bind_some]
  split <;> rfl

theorem head_toDigits (n : Nat) (h : n ≠ 0) : (Nat.toDigits 10 n).head? ≠ some '0' := by
  induction n using Nat.strong_induction_on with
  | h n ih =>
      by_cases hlt : n < 10
      · rw [Nat.toDigits_of_lt_base hlt]
        interval_cases n <;> first | exact absurd rfl h | decide
      · rw [Nat.toDigits_of_base_le (by omega) (by omega)]
        have hdiv := ih (n / 10) (by omega) (by omega)
        cases hd : Nat.toDigits 10 (n / 10) with
        | nil => exact absurd hd Nat.toDigits_ne_nil
        | cons c digits =>
            rw [hd] at hdiv
            exact hdiv

theorem isWhole_toDigits (n : Nat) : IsWhole (Nat.toDigits 10 n) := by
  by_cases h : n = 0
  · subst h
    exact .inl (Nat.toDigits_zero 10)
  · refine .inr ⟨⟨Nat.toDigits_ne_nil, fun c hc => ?_⟩, head_toDigits n h⟩
    exact Nat.isDigit_of_mem_toDigits (by omega) (by omega) hc

-- The sign and the digits of an integer.
theorem intText_eq (n : Int) : ∃ minus digits, IsSign ['-'] minus ∧ IsWhole digits ∧
    intText n = minus ++ digits ∧ intValue minus digits = n := by
  cases n with
  | ofNat n =>
      refine ⟨[], Nat.toDigits 10 n, .inl rfl, isWhole_toDigits n, rfl, ?_⟩
      simp [intValue, Nat.ofDigitChars_ten_toDigits]
  | negSucc n =>
      refine ⟨['-'], Nat.toDigits 10 (n + 1), .inr ⟨'-', by simp, rfl⟩, isWhole_toDigits _, rfl, ?_⟩
      simp [intValue, Nat.ofDigitChars_ten_toDigits, Int.negSucc_eq]

end Numbers

-- What the format can express: finite numbers, strings of paired surrogates, and dictionaries
-- without repeated keys.
structure LawfulFloats (floats : Floats φ) (finite : φ → Prop) : Prop where
  text : ∀ x, finite x → ∃ minus digits frac exp, IsSign ['-'] minus ∧ IsWhole digits ∧
    IsFraction frac ∧ IsExponent exp ∧ ¬(frac = [] ∧ exp = []) ∧
      floats.text x = minus ++ digits ++ frac ++ exp
  value_text : ∀ x, finite x → floats.value (floats.text x) = x

mutual

def Representable (finite : φ → Prop) : Json φ → Prop
  | null | bool _ | int _ => True
  | float x => finite x
  | str s => Paired s
  | list items => RepresentableItems finite items
  | dict entries => (entries.map Prod.fst).Nodup ∧ RepresentableEntries finite entries
  | object _ => False

def RepresentableItems (finite : φ → Prop) : List (Json φ) → Prop
  | [] => True
  | item :: items => item.Representable finite ∧ RepresentableItems finite items

def RepresentableEntries (finite : φ → Prop) : List (Str × Json φ) → Prop
  | [] => True
  | (key, value) :: entries =>
      Paired key ∧ value.Representable finite ∧ RepresentableEntries finite entries

end

mutual

-- What the encoder refuses nothing of.
def Serializable : Json φ → Prop
  | null | bool _ | int _ | float _ | str _ => True
  | list items => SerializableItems items
  | dict entries => SerializableEntries entries
  | object _ => False

def SerializableItems : List (Json φ) → Prop
  | [] => True
  | item :: items => item.Serializable ∧ SerializableItems items

def SerializableEntries : List (Str × Json φ) → Prop
  | [] => True
  | (_, value) :: entries => value.Serializable ∧ SerializableEntries entries

end

mutual

theorem Representable.serializable {finite : φ → Prop} :
    (v : Json φ) → v.Representable finite → v.Serializable
  | null, _ | bool _, _ | int _, _ | float _, _ | str _, _ => by simp [Serializable]
  | list items, h => by
      rw [Representable] at h
      rw [Serializable]
      exact RepresentableItems.serializable items h
  | dict entries, h => by
      rw [Representable] at h
      rw [Serializable]
      exact RepresentableEntries.serializable entries h.2
  | object _, h => by simp [Representable] at h

theorem RepresentableItems.serializable {finite : φ → Prop} :
    (items : List (Json φ)) → RepresentableItems finite items → SerializableItems items
  | [], _ => by simp [SerializableItems]
  | item :: items, h => by
      rw [RepresentableItems] at h
      rw [SerializableItems]
      exact ⟨Representable.serializable item h.1, RepresentableItems.serializable items h.2⟩

theorem RepresentableEntries.serializable {finite : φ → Prop} :
    (entries : List (Str × Json φ)) → RepresentableEntries finite entries → SerializableEntries entries
  | [], _ => by simp [SerializableEntries]
  | (_, value) :: entries, h => by
      rw [RepresentableEntries] at h
      rw [SerializableEntries]
      exact ⟨Representable.serializable value h.2.1, RepresentableEntries.serializable entries h.2.2⟩

end

theorem serializableEntries_iff {entries : List (Str × Json φ)} :
    SerializableEntries entries ↔ ∀ entry ∈ entries, entry.2.Serializable := by
  induction entries with
  | nil => simp [SerializableEntries]
  | cons entry entries ih => simp [SerializableEntries, ih]

theorem representableEntries_assign {finite : φ → Prop} {key : Str} {item : Json φ}
    {entries : List (Str × Json φ)} (hk : Paired key) (hi : item.Representable finite)
    (h : RepresentableEntries finite entries) : RepresentableEntries finite (Entries.assign key item entries) := by
  induction entries with
  | nil => exact ⟨hk, hi, trivial⟩
  | cons entry entries ih =>
      obtain ⟨other, value⟩ := entry
      rw [RepresentableEntries] at h
      rw [Entries.assign]
      split
      · exact ⟨h.1, hi, h.2.2⟩
      · exact ⟨h.1, h.2.1, ih h.2.2⟩

theorem representable_assign {finite : φ → Prop} {key : Str} {item : Json φ}
    {entries : List (Str × Json φ)} (hk : Paired key) (hi : item.Representable finite)
    (h : (dict entries).Representable finite) : (dict (Entries.assign key item entries)).Representable finite := by
  rw [Representable] at h ⊢
  exact ⟨(Dict.set ⟨entries, h.1⟩ key item).nodup, representableEntries_assign hk hi h.2⟩

section Complete

variable {finite : φ → Prop} (floats : Floats φ) (indent : Nat)

theorem Output.eq_emit {out : Output} (h : out.refusal = none) : out = .emit out.text := by
  cases out
  exact congrArg _ h

@[simp] theorem Output.emit_text (text : List Char) : (Output.emit text).text = text := rfl

@[simp] theorem Output.emit_append_emit (first second : List Char) :
    Output.emit first ++ Output.emit second = .emit (first ++ second) := rfl

mutual

-- Nothing that can be serialized is refused.
theorem encode_refusal : (v : Json φ) → v.Serializable → (level : Nat) →
    (encode floats indent level v).refusal = none
  | null, _, _ | bool true, _, _ | bool false, _, _ | int _, _, _ | float _, _, _ | str _, _, _ => by
      simp [encode, Output.emit]
  | list items, h, level => by
      have hitems := encodeItems_refusal items (by simpa [Serializable] using h) (level + 1)
        (newline indent (level + 1))
      rw [encode]
      split
      · rfl
      · rw [Output.eq_emit hitems]
        rfl
  | dict entries, h, level => by
      have hentries := encodeEntries_refusal entries (by simpa [Serializable] using h) (level + 1)
        (newline indent (level + 1))
      rw [encode]
      split
      · rfl
      · rw [Output.eq_emit hentries]
        rfl
  | object _, h, _ => by simp [Serializable] at h

theorem encodeItems_refusal : (items : List (Json φ)) → SerializableItems items →
    (level : Nat) → (sep : List Char) → (encodeItems floats indent level sep items).refusal = none
  | [], _, _, _ => rfl
  | item :: items, h, level, sep => by
      rw [SerializableItems] at h
      have hitem := encode_refusal item h.1 level
      have hitems := encodeItems_refusal items h.2 level (',' :: newline indent level)
      rw [encodeItems, Output.eq_emit hitem, Output.eq_emit hitems]
      rfl

theorem encodeEntries_refusal : (entries : List (Str × Json φ)) → SerializableEntries entries →
    (level : Nat) → (sep : List Char) → (encodeEntries floats indent level sep entries).refusal = none
  | [], _, _, _ => rfl
  | (key, item) :: entries, h, level, sep => by
      rw [SerializableEntries] at h
      have hitem := encode_refusal item h.1 level
      have hentries := encodeEntries_refusal entries h.2 level (',' :: newline indent level)
      rw [encodeEntries, Output.eq_emit hitem, Output.eq_emit hentries]
      rfl

end

variable {level : Nat}

theorem encodeItems_text {item : Json φ} {items : List (Json φ)}
    (h : RepresentableItems finite (item :: items)) (sep : List Char) :
    (encodeItems floats indent level sep (item :: items)).text =
      sep ++ ((encode floats indent level item).text ++
        (encodeItems floats indent level (',' :: newline indent level) items).text) := by
  rw [RepresentableItems] at h
  rw [encodeItems, Output.eq_emit (encode_refusal floats indent item (h.1.serializable item) level),
    Output.eq_emit (encodeItems_refusal floats indent items (h.2.serializable items) level _)]
  simp

theorem encodeEntries_text {key : Str} {item : Json φ} {entries : List (Str × Json φ)}
    (h : RepresentableEntries finite ((key, item) :: entries)) (sep : List Char) :
    (encodeEntries floats indent level sep ((key, item) :: entries)).text =
      sep ++ (strText key ++ (':' :: ' ' :: ((encode floats indent level item).text ++
        (encodeEntries floats indent level (',' :: newline indent level) entries).text))) := by
  rw [RepresentableEntries] at h
  rw [encodeEntries, Output.eq_emit (encode_refusal floats indent item (h.2.1.serializable item) level),
    Output.eq_emit (encodeEntries_refusal floats indent entries (h.2.2.serializable entries) level _)]
  simp

theorem encode_list_text {item : Json φ} {items : List (Json φ)}
    (h : (list (item :: items)).Representable finite) :
    (encode floats indent level (list (item :: items))).text =
      '[' :: ((encodeItems floats indent (level + 1) (newline indent (level + 1)) (item :: items)).text ++
        (newline indent level ++ [']'])) := by
  rw [Representable] at h
  rw [encode, if_neg (by simp),
    Output.eq_emit (encodeItems_refusal floats indent (item :: items) (h.serializable _) (level + 1) _)]
  simp

theorem encode_dict_text {entry : Str × Json φ} {entries : List (Str × Json φ)}
    (h : (dict (entry :: entries)).Representable finite) :
    (encode floats indent level (dict (entry :: entries))).text =
      '{' :: ((encodeEntries floats indent (level + 1) (newline indent (level + 1))
        (entry :: entries)).text ++ (newline indent level ++ ['}'])) := by
  rw [Representable] at h
  rw [encode, if_neg (by simp),
    Output.eq_emit (encodeEntries_refusal floats indent (entry :: entries) (h.2.serializable _) (level + 1) _)]
  simp

end Complete

section Decode

variable {finite : φ → Prop} {floats : Floats φ} {indent level fuel : Nat}

theorem skip_cons {c : Char} {s : List Char} (h : isSpace c = false) : skip (c :: s) = c :: s := by
  simp [skip, h]

-- The characters that a text made of a number can start with.
theorem number_head {minus digits : List Char} (hm : IsSign ['-'] minus) (hd : IsWhole digits)
    (s : List Char) : ∃ c t, minus ++ (digits ++ s) = c :: t ∧
      (c.isDigit = true ∨ c = '-' ∧ ∃ d u, t = d :: u ∧ d.isDigit = true) := by
  obtain ⟨hne, hall⟩ := hd.digits
  cases digits with
  | nil => exact absurd rfl hne
  | cons d digits =>
      have hdigit := hall d List.mem_cons_self
      rcases hm with rfl | ⟨c, hc, rfl⟩
      · exact ⟨d, _, rfl, .inl hdigit⟩
      · exact ⟨c, _, rfl, .inr ⟨List.mem_singleton.mp hc, d, _, rfl, hdigit⟩⟩

theorem digit_ne {c : Char} (h : c.isDigit = true) :
    'n' ≠ c ∧ 't' ≠ c ∧ 'f' ≠ c ∧ 'N' ≠ c ∧ 'I' ≠ c ∧ '-' ≠ c := by
  refine ⟨?_, ?_, ?_, ?_, ?_, ?_⟩ <;>
    · rintro rfl
      exact absurd h (by decide)

theorem literal_number {c : Char} {t : List Char}
    (h : c.isDigit = true ∨ c = '-' ∧ ∃ d u, t = d :: u ∧ d.isDigit = true) :
    literal floats (c :: t) = none := by
  rcases h with hc | ⟨rfl, d, u, rfl, hd⟩
  · simp [literal, literals, digit_ne hc]
  · simp [literal, literals, digit_ne hd]

theorem value_scalar {c : Char} (h : c ∉ ['"', '{', '[']) (t : List Char) :
    value floats (fuel + 1) (c :: t) = (literal floats (c :: t)).or (number floats (c :: t)) := by
  have hne : ∀ x ∈ ['"', '{', '['], ∀ rest, c :: t = x :: rest → False := by
    intro x hx rest he
    exact h ((List.cons.inj he).1 ▸ hx)
  rw [value]
  · exact hne '"' (by simp)
  · exact hne '{' (by simp)
  · exact hne '[' (by simp)

theorem scalar_head {c : Char} {t : List Char}
    (h : c.isDigit = true ∨ c = '-' ∧ ∃ d u, t = d :: u ∧ d.isDigit = true) :
    c ∉ ['"', '{', '['] ∧ isSpace c = false ∧ c ≠ ']' := by
  have hdash : c.isDigit = true ∨ c = '-' := h.imp_right And.left
  refine ⟨fun hm => ?_, ?_, ?_⟩
  · have hno : ∀ x ∈ ['"', '{', '['], ¬(x.isDigit = true ∨ x = '-') := by simp
    exact hno c hm hdash
  · have hno : ∀ x ∈ [' ', '\t', '\n', '\r'], ¬(x.isDigit = true ∨ x = '-') := by simp
    exact decide_eq_false fun hm => hno c hm hdash
  · rintro rfl
    exact absurd hdash (by decide)

theorem value_number {minus digits frac exp : List Char} (hm : IsSign ['-'] minus)
    (hd : IsWhole digits) (hf : IsFraction frac) (he : IsExponent exp) (hr : Stops rest) :
    value floats (fuel + 1) (minus ++ (digits ++ (frac ++ (exp ++ rest)))) =
      some (if frac = [] ∧ exp = [] then int (intValue minus digits)
        else float (floats.value (minus ++ digits ++ frac ++ exp)), rest) := by
  have hnumber := number_text floats hm hd hf he hr
  obtain ⟨c, t, hct, hc⟩ := number_head hm hd (frac ++ (exp ++ rest))
  rw [hct] at hnumber ⊢
  rw [value_scalar (scalar_head hc).1, literal_number hc, Option.none_or, hnumber]

theorem value_list {s body : List Char} (hskip : skip s = body) (hne : body.head? ≠ some ']') :
    value floats (fuel + 1) ('[' :: s) =
      (Json.items floats fuel body).map fun result => (list result.1, result.2) := by
  rw [value, hskip]
  cases body with
  | nil => rfl
  | cons c body =>
      split
      · next he => exact absurd (congrArg List.head? he) hne
      · rfl

theorem items_last {item : Json φ} {s t : List Char} (hv : value floats fuel s = some (item, t))
    (ht : skip t = ']' :: rest) : Json.items floats (fuel + 1) s = some ([item], rest) := by
  rw [Json.items, hv, Option.bind_eq_bind, Option.bind_some]
  simp only [ht]
  rfl

theorem items_more {item : Json φ} {others : List (Json φ)} {s t u : List Char}
    (hv : value floats fuel s = some (item, t)) (ht : skip t = ',' :: u)
    (hi : Json.items floats fuel (skip u) = some (others, rest)) :
    Json.items floats (fuel + 1) s = some (item :: others, rest) := by
  rw [Json.items, hv, Option.bind_eq_bind, Option.bind_some]
  simp only [ht, hi]
  rfl

theorem members_last {key : Str} {item : Json φ} {s t u v : List Char}
    (hk : string s = some (key, t)) (hc : skip t = ':' :: u)
    (hv : value floats fuel (skip u) = some (item, v)) (he : skip v = '}' :: rest) :
    members floats (fuel + 1) ('"' :: s) = some ([(key, item)], rest) := by
  rw [members, hk, Option.bind_eq_bind, Option.bind_some]
  simp only [hc, hv, Option.bind_eq_bind, Option.bind_some, he]
  rfl

theorem members_more {key : Str} {item : Json φ} {others : List (Str × Json φ)}
    {s t u v w : List Char} (hk : string s = some (key, t)) (hc : skip t = ':' :: u)
    (hv : value floats fuel (skip u) = some (item, v)) (he : skip v = ',' :: w)
    (hm : members floats fuel (skip w) = some (others, rest)) :
    members floats (fuel + 1) ('"' :: s) = some ((key, item) :: others, rest) := by
  rw [members, hk, Option.bind_eq_bind, Option.bind_some]
  simp only [hc, hv, Option.bind_eq_bind, Option.bind_some, he, hm]
  rfl

theorem value_dict {s body : List Char} (hskip : skip s = body) (hne : body.head? ≠ some '}') :
    value floats (fuel + 1) ('{' :: s) = (members floats fuel body).map fun result =>
      (dict (result.1.foldl (fun entries entry => Entries.assign entry.1 entry.2 entries) []),
        result.2) := by
  rw [value, hskip]
  cases body with
  | nil => rfl
  | cons c body =>
      split
      · next he => exact absurd (congrArg List.head? he) hne
      · rfl

-- White space between the tokens of a document
def Blank (ws : List Char) : Prop := ∀ c ∈ ws, isSpace c = true

theorem blank_nil : Blank [] := fun _ hc => absurd hc List.not_mem_nil

theorem blank_space : Blank [' '] := by
  simp [Blank, isSpace]

theorem skip_blank {ws : List Char} (h : Blank ws) (s : List Char) : skip (ws ++ s) = skip s :=
  List.dropWhile_append_of_pos h

theorem skip_blank_cons {ws : List Char} (h : Blank ws) {c : Char} (hc : isSpace c = false) (s : List Char) :
    skip (ws ++ c :: s) = c :: s := by
  rw [skip_blank h, skip_cons hc]

theorem stops_blank {ws : List Char} (h : Blank ws) {c : Char} (hc : c ∈ stops) (s : List Char) :
    Stops (ws ++ c :: s) := by
  intro d hd
  cases ws with
  | nil =>
      obtain rfl := Option.some.inj hd
      exact hc
  | cons space ws =>
      obtain rfl := Option.some.inj hd
      have hspace : space ∈ [' ', '\t', '\n', '\r'] := of_decide_eq_true (h space List.mem_cons_self)
      exact List.mem_append_right [',', ']', '}'] hspace

mutual

-- The documents of a value, with any white space between their tokens
inductive Layout (floats : Floats φ) : Json φ → List Char → Prop
  | null : Layout floats null ['n', 'u', 'l', 'l']
  | boolTrue : Layout floats (bool true) ['t', 'r', 'u', 'e']
  | boolFalse : Layout floats (bool false) ['f', 'a', 'l', 's', 'e']
  | int (n : Int) : Layout floats (int n) (intText n)
  | float (x : φ) : Layout floats (float x) (floats.text x)
  | str (s : Str) : Layout floats (str s) (strText s)
  | listNil {ws : List Char} (hws : Blank ws) : Layout floats (list []) ('[' :: (ws ++ [']']))
  | list {ws t : List Char} {items : List (Json φ)} (hws : Blank ws) (h : LayoutItems floats items t) :
      Layout floats (list items) ('[' :: (ws ++ t))
  | dictNil {ws : List Char} (hws : Blank ws) : Layout floats (dict []) ('{' :: (ws ++ ['}']))
  | dict {ws t : List Char} {entries : List (Str × Json φ)} (hws : Blank ws)
      (h : LayoutEntries floats entries t) : Layout floats (dict entries) ('{' :: (ws ++ t))

-- The rest of a list, from an item on
inductive LayoutItems (floats : Floats φ) : List (Json φ) → List Char → Prop
  | last {item : Json φ} {t ws : List Char} (h : Layout floats item t) (hws : Blank ws) :
      LayoutItems floats [item] (t ++ (ws ++ [']']))
  | more {item : Json φ} {items : List (Json φ)} {t u ws after : List Char} (h : Layout floats item t)
      (hws : Blank ws) (hafter : Blank after) (hitems : LayoutItems floats items u) :
      LayoutItems floats (item :: items) (t ++ (ws ++ ',' :: (after ++ u)))

-- The rest of a dictionary, from a key on
inductive LayoutEntries (floats : Floats φ) : List (Str × Json φ) → List Char → Prop
  | last {key : Str} {item : Json φ} {t colon gap ws : List Char} (hcolon : Blank colon) (hgap : Blank gap)
      (h : Layout floats item t) (hws : Blank ws) :
      LayoutEntries floats [(key, item)] (strText key ++ (colon ++ ':' :: (gap ++ (t ++ (ws ++ ['}'])))))
  | more {key : Str} {item : Json φ} {entries : List (Str × Json φ)} {t u colon gap ws after : List Char}
      (hcolon : Blank colon) (hgap : Blank gap) (h : Layout floats item t) (hws : Blank ws)
      (hafter : Blank after) (hentries : LayoutEntries floats entries u) :
      LayoutEntries floats ((key, item) :: entries)
        (strText key ++ (colon ++ ':' :: (gap ++ (t ++ (ws ++ ',' :: (after ++ u))))))

end

theorem strText_append (s : Str) (t : List Char) :
    strText s ++ t = '"' :: ((s.flatMap units).flatMap escapeUnit ++ '"' :: t) := by
  simp [strText]

theorem layoutEntries_head {entries : List (Str × Json φ)} {t : List Char}
    (h : LayoutEntries floats entries t) (s : List Char) : ∃ u, t ++ s = '"' :: u := by
  cases h with
  | last => exact ⟨_, rfl⟩
  | more => exact ⟨_, rfl⟩

variable (hl : LawfulFloats floats finite)
include hl

-- How a written value starts: neither with a space nor with the end of a list.
theorem layout_head {v : Json φ} {t : List Char} (h : Layout floats v t) (hv : v.Representable finite) :
    ∃ c u, t = c :: u ∧ isSpace c = false ∧ c ≠ ']' := by
  cases h with
  | null | boolTrue | boolFalse | str | listNil | list | dictNil | dict => exact ⟨_, _, rfl, rfl, by decide⟩
  | int n =>
      obtain ⟨minus, digits, hm, hd, htext, -⟩ := intText_eq n
      obtain ⟨c, t, hct, hc⟩ := number_head hm hd []
      refine ⟨c, t, ?_, (scalar_head hc).2⟩
      rw [htext, ← hct, List.append_nil]
  | float x =>
      obtain ⟨minus, digits, frac, exp, hm, hd, -, -, -, htext⟩ := hl.text x hv
      obtain ⟨c, t, hct, hc⟩ := number_head hm hd (frac ++ exp)
      refine ⟨c, t, ?_, (scalar_head hc).2⟩
      rw [htext, ← hct]
      simp

theorem layoutItems_head {items : List (Json φ)} {t : List Char} (h : LayoutItems floats items t)
    (hv : RepresentableItems finite items) (s : List Char) :
    ∃ c u, t ++ s = c :: u ∧ isSpace c = false ∧ c ≠ ']' := by
  cases h with
  | last h _ | more h _ _ _ =>
      rw [RepresentableItems] at hv
      obtain ⟨c, u, rfl, hc⟩ := layout_head hl h hv.1
      exact ⟨c, _, rfl, hc⟩

mutual

-- Reading what was written: every step of the reader takes a character at least.
theorem value_layout : (fuel : Nat) → ∀ {v : Json φ} {t : List Char}, Layout floats v t →
    v.Representable finite → ∀ {rest : List Char}, Stops rest → 2 * t.length ≤ fuel →
      value floats fuel (t ++ rest) = some (v, rest)
  | 0, v, t, h, hv, rest, hr, hf => by
      obtain ⟨c, u, rfl, -⟩ := layout_head hl h hv
      rw [List.length_cons] at hf
      omega
  | fuel + 1, _, _, .null, _, _, _, _ => rfl
  | fuel + 1, _, _, .boolTrue, _, _, _, _ => rfl
  | fuel + 1, _, _, .boolFalse, _, _, _, _ => rfl
  | fuel + 1, _, _, .int n, _, rest, hr, _ => by
      obtain ⟨minus, digits, hm, hd, htext, hvalue⟩ := intText_eq n
      have hread : value floats (fuel + 1) (minus ++ (digits ++ ([] ++ ([] ++ rest)))) = _ :=
        value_number hm hd (.inl rfl) (.inl rfl) hr
      rw [if_pos ⟨rfl, rfl⟩, hvalue] at hread
      rw [htext, List.append_assoc]
      exact hread
  | fuel + 1, _, _, .float x, hv, rest, hr, _ => by
      obtain ⟨minus, digits, frac, exp, hm, hd, hfrac, hexp, hne, htext⟩ := hl.text x hv
      have hread : value floats (fuel + 1) (minus ++ (digits ++ (frac ++ (exp ++ rest)))) = _ :=
        value_number hm hd hfrac hexp hr
      rw [if_neg hne, ← htext, hl.value_text x hv] at hread
      rw [htext, List.append_assoc, List.append_assoc, List.append_assoc]
      exact hread
  | fuel + 1, _, _, .str s, hv, rest, _, _ => by
      have hstring : string ((s.flatMap units).flatMap escapeUnit ++ '"' :: rest) = some (s, rest) :=
        string_strText hv
      rw [strText_append, value, hstring]
      rfl
  | fuel + 1, _, _, .listNil hws, _, rest, _, _ => by
      rw [List.cons_append, List.append_assoc, List.singleton_append, value]
      simp only [skip_blank_cons hws (by decide : isSpace ']' = false)]
  | fuel + 1, _, _, @Layout.list _ _ ws t items hws h, hv, rest, _, hf => by
      rw [Representable] at hv
      simp only [List.length_cons, List.length_append] at hf
      have hread := items_layout fuel h hv rest (by omega)
      obtain ⟨c, u, htext, hspace, hc⟩ := layoutItems_head hl h hv rest
      have hskip : skip (ws ++ (t ++ rest)) = t ++ rest := by
        rw [skip_blank hws, htext, skip_cons hspace]
      rw [List.cons_append, List.append_assoc, value_list hskip, hread]
      · rfl
      · rw [htext]
        exact fun he => hc (Option.some.inj he)
  | fuel + 1, _, _, .dictNil hws, _, rest, _, _ => by
      rw [List.cons_append, List.append_assoc, List.singleton_append, value]
      simp only [skip_blank_cons hws (by decide : isSpace '}' = false)]
  | fuel + 1, _, _, @Layout.dict _ _ ws t entries hws h, hv, rest, _, hf => by
      rw [Representable] at hv
      simp only [List.length_cons, List.length_append] at hf
      have hread := members_layout fuel h hv.2 rest (by omega)
      obtain ⟨u, htext⟩ := layoutEntries_head h rest
      have hskip : skip (ws ++ (t ++ rest)) = t ++ rest := by
        rw [skip_blank hws, htext, skip_cons (by decide)]
      have hassign : ([] ++ entries).map Prod.fst |>.Nodup := hv.1
      rw [List.cons_append, List.append_assoc, value_dict hskip, hread, Option.map_some,
        Entries.foldl_assign hassign, List.nil_append]
      rw [htext]
      exact fun he => absurd (Option.some.inj he) (by decide)

theorem items_layout : (fuel : Nat) → ∀ {items : List (Json φ)} {t : List Char},
    LayoutItems floats items t → RepresentableItems finite items → ∀ rest : List Char,
      2 * t.length ≤ fuel → Json.items floats fuel (t ++ rest) = some (items, rest)
  | 0, _, _, h, hv, rest, hf => by
      obtain ⟨c, u, htext, -⟩ := layoutItems_head hl h hv []
      rw [List.append_nil] at htext
      rw [htext, List.length_cons] at hf
      omega
  | fuel + 1, _, _, .last h hws, hv, rest, hf => by
      rw [RepresentableItems] at hv
      simp only [List.length_append, List.length_cons] at hf
      have hstops := stops_blank hws (by decide : ']' ∈ stops) rest
      have hitem := value_layout fuel h hv.1 hstops (by omega)
      rw [List.append_assoc, List.append_assoc, List.singleton_append]
      exact items_last hitem (skip_blank_cons hws (by decide) _)
  | fuel + 1, _, _, @LayoutItems.more _ _ item items t u ws after h hws hafter hitems, hv, rest, hf => by
      rw [RepresentableItems] at hv
      simp only [List.length_append, List.length_cons] at hf
      have hstops : Stops (ws ++ ',' :: (after ++ (u ++ rest))) := stops_blank hws (by decide) _
      have hitem := value_layout fuel h hv.1 hstops (by omega)
      obtain ⟨c, w, htext, hspace, -⟩ := layoutItems_head hl hitems hv.2 rest
      have hothers := items_layout fuel hitems hv.2 rest (by omega)
      rw [List.append_assoc, List.append_assoc, List.cons_append, List.append_assoc]
      refine items_more hitem (skip_blank_cons hws (by decide) _) ?_
      rw [skip_blank hafter, htext, skip_cons hspace, ← htext, hothers]

theorem members_layout : (fuel : Nat) → ∀ {entries : List (Str × Json φ)} {t : List Char},
    LayoutEntries floats entries t → RepresentableEntries finite entries → ∀ rest : List Char,
      2 * t.length ≤ fuel → members floats fuel (t ++ rest) = some (entries, rest)
  | 0, _, _, h, hv, rest, hf => by
      obtain ⟨u, htext⟩ := layoutEntries_head h []
      rw [List.append_nil] at htext
      rw [htext, List.length_cons] at hf
      omega
  | fuel + 1, _, _, .last hcolon hgap h hws, hv, rest, hf => by
      rw [RepresentableEntries] at hv
      simp only [List.length_append, List.length_cons] at hf
      have hstops := stops_blank hws (by decide : '}' ∈ stops) rest
      have hitem := value_layout fuel h hv.2.1 hstops (by omega)
      obtain ⟨c, w, htext, hspace, -⟩ := layout_head hl h hv.2.1
      simp only [List.append_assoc, List.cons_append, List.nil_append]
      rw [strText_append]
      refine members_last (string_strText hv.1) (skip_blank_cons hcolon (by decide) _) ?_
        (skip_blank_cons hws (by decide) _)
      rw [skip_blank hgap, htext, List.cons_append, skip_cons hspace, ← List.cons_append, ← htext, hitem]
  | fuel + 1, _, _, @LayoutEntries.more _ _ key item entries t u colon gap ws after hcolon hgap h hws hafter
      hentries, hv, rest, hf => by
      rw [RepresentableEntries] at hv
      simp only [List.length_append, List.length_cons] at hf
      have hstops : Stops (ws ++ ',' :: (after ++ (u ++ rest))) := stops_blank hws (by decide) _
      have hitem := value_layout fuel h hv.2.1 hstops (by omega)
      obtain ⟨c, w, htext, hspace, -⟩ := layout_head hl h hv.2.1
      obtain ⟨x, hquote⟩ := layoutEntries_head hentries rest
      have hothers := members_layout fuel hentries hv.2.2 rest (by omega)
      simp only [List.append_assoc, List.cons_append]
      rw [strText_append]
      have hcomma : skip (ws ++ ',' :: (after ++ (u ++ rest))) = ',' :: (after ++ (u ++ rest)) :=
        skip_blank_cons hws (by decide) _
      refine members_more (string_strText hv.1) (skip_blank_cons hcolon (by decide) _) ?_ hcomma ?_
      · rw [skip_blank hgap, htext, List.cons_append, skip_cons hspace, ← List.cons_append, ← htext, hitem]
      · rw [skip_blank hafter, hquote, skip_cons (by decide), ← hquote, hothers]

end

-- A document of a value is read as the value, with white space around it as well.
theorem decode_layout {v : Json φ} {t before after : List Char} (h : Layout floats v t)
    (hv : v.Representable finite) (hbefore : Blank before) (hafter : Blank after) :
    decode floats (before ++ (t ++ after)) = some v := by
  obtain ⟨c, u, htext, hspace, -⟩ := layout_head hl h hv
  have hskip : skip (t ++ after) = t ++ after := by rw [htext, List.cons_append, skip_cons hspace]
  have hstops : Stops after := by
    cases after with
    | nil => simp [StartsWith]
    | cons c after =>
        exact stops_blank blank_nil
          (List.mem_append_right [',', ']', '}'] (of_decide_eq_true (hafter c List.mem_cons_self))) after
  have hread := value_layout hl (2 * (before ++ (t ++ after)).length) h hv hstops (by
    simp only [List.length_append]
    omega)
  have hend : skip after = [] := by
    have := skip_blank hafter []
    rwa [List.append_nil] at this
  rw [decode, skip_blank hbefore, hskip, hread]
  simp [hend]

omit hl

-- The first separator is written before the items, so that only it depends on the place.
theorem encodeItems_sep {items : List (Json φ)} (hne : items ≠ [])
    (h : RepresentableItems finite items) (sep : List Char) :
    (encodeItems floats indent level sep items).text =
      sep ++ (encodeItems floats indent level [] items).text := by
  cases items with
  | nil => exact absurd rfl hne
  | cons item items => rw [encodeItems_text floats indent h, encodeItems_text floats indent h, List.nil_append]

theorem encodeEntries_sep {entries : List (Str × Json φ)} (hne : entries ≠ [])
    (h : RepresentableEntries finite entries) (sep : List Char) :
    (encodeEntries floats indent level sep entries).text =
      sep ++ (encodeEntries floats indent level [] entries).text := by
  cases entries with
  | nil => exact absurd rfl hne
  | cons entry entries =>
      rw [encodeEntries_text floats indent h, encodeEntries_text floats indent h, List.nil_append]

theorem blank_newline (indent level : Nat) : Blank (newline indent level) := by
  intro c hc
  rcases List.mem_cons.mp hc with rfl | hc
  · rfl
  · obtain rfl := List.eq_of_mem_replicate hc
    rfl

mutual

theorem encode_layout : (v : Json φ) → v.Representable finite → (level : Nat) →
    Layout floats v (encode floats indent level v).text
  | null, _, _ => .null
  | bool true, _, _ => .boolTrue
  | bool false, _, _ => .boolFalse
  | int n, _, _ => .int n
  | float x, _, _ => .float x
  | str s, _, _ => .str s
  | list [], _, _ => .listNil blank_nil
  | list (item :: items), h, level => by
      have hitems : RepresentableItems finite (item :: items) := by simpa [Representable] using h
      have hne : item :: items ≠ [] := List.cons_ne_nil _ _
      rw [encode_list_text floats indent h, encodeItems_sep hne hitems, List.append_assoc]
      exact .list (blank_newline _ _) (encodeItems_layout _ hne hitems _ _)
  | dict [], _, _ => .dictNil blank_nil
  | dict (entry :: entries), h, level => by
      have hne : entry :: entries ≠ [] := List.cons_ne_nil _ _
      rw [encode_dict_text floats indent h]
      rw [Representable] at h
      rw [encodeEntries_sep hne h.2, List.append_assoc]
      exact .dict (blank_newline _ _) (encodeEntries_layout _ hne h.2 _ _)
  | object _, h, _ => by simp [Representable] at h

theorem encodeItems_layout : (items : List (Json φ)) → items ≠ [] → RepresentableItems finite items →
    (level outer : Nat) → LayoutItems floats items
      ((encodeItems floats indent level [] items).text ++ (newline indent outer ++ [']']))
  | [], hne, _, _, _ => absurd rfl hne
  | [item], _, h, level, outer => by
      rw [encodeItems_text floats indent h, List.nil_append, encodeItems, Output.emit_text, List.append_nil]
      rw [RepresentableItems] at h
      exact .last (encode_layout item h.1 level) (blank_newline _ _)
  | item :: next :: items, _, h, level, outer => by
      rw [encodeItems_text floats indent h]
      rw [RepresentableItems] at h
      have hne : next :: items ≠ [] := List.cons_ne_nil _ _
      have hitems := encodeItems_layout (next :: items) hne h.2 level outer
      rw [List.nil_append, encodeItems_sep hne h.2, List.append_assoc, List.append_assoc]
      exact .more (encode_layout item h.1 level) blank_nil (blank_newline _ _) hitems

theorem encodeEntries_layout : (entries : List (Str × Json φ)) → entries ≠ [] →
    RepresentableEntries finite entries → (level outer : Nat) → LayoutEntries floats entries
      ((encodeEntries floats indent level [] entries).text ++ (newline indent outer ++ ['}']))
  | [], hne, _, _, _ => absurd rfl hne
  | [(key, item)], _, h, level, outer => by
      rw [encodeEntries_text floats indent h, List.nil_append, encodeEntries, Output.emit_text,
        List.append_nil, List.append_assoc]
      rw [RepresentableEntries] at h
      exact .last blank_nil blank_space
        (encode_layout item h.2.1 level) (blank_newline _ _)
  | (key, item) :: next :: entries, _, h, level, outer => by
      rw [encodeEntries_text floats indent h]
      rw [RepresentableEntries] at h
      have hne : next :: entries ≠ [] := List.cons_ne_nil _ _
      have hentries := encodeEntries_layout (next :: entries) hne h.2.2 level outer
      rw [List.nil_append, encodeEntries_sep hne h.2.2]
      simp only [List.append_assoc, List.cons_append]
      exact .more blank_nil blank_space (encode_layout item h.2.1 level) blank_nil (blank_newline _ _) hentries

end

-- What was written is read back as it was.
theorem decode_encode (hl : LawfulFloats floats finite) {v : Json φ} (h : v.Representable finite) :
    decode floats (encode floats indent 0 v).text = some v := by
  have hlayout : Layout floats v (encode floats indent 0 v).text := encode_layout v h 0
  have hread := decode_layout hl hlayout h blank_nil blank_nil
  rwa [List.nil_append, List.append_nil] at hread

end Decode

end YasinCore.Library.Json
