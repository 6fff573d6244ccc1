import Mathlib.Tactic.Ring
import YasinCore.Library.DateTime
import YasinCore.Library.Json.RoundTrip

namespace YasinCore.Library

section Digits

-- A number with leading zeros, cut to its last digits.
def pad : Nat → Nat → Str
  | 0, _ => []
  | width + 1, n => Fin.ofNat _ (48 + n / 10 ^ width % 10) :: pad width n

def digit? (c : CodePoint) : Option Nat :=
  if 48 ≤ c.val ∧ c.val ≤ 57 then some (c.val - 48) else none

-- Exactly as many digits as asked for, after those read already.
def digits : Nat → Nat → Str → Option (Nat × Str)
  | 0, n, s => some (n, s)
  | _ + 1, _, [] => none
  | width + 1, n, c :: s => (digit? c).bind fun d => digits width (n * 10 + d) s

def literal (c : Char) : Str → Option Str
  | [] => none
  | d :: s => if d = .ofChar c then some s else none

theorem digits_pad (width n before : Nat) (s : Str) :
    digits width before (pad width n ++ s) = some (before * 10 ^ width + n % 10 ^ width, s) := by
  induction width generalizing before with
  | zero => simp [digits, pad, Nat.mod_one]
  | succ width ih =>
      have hdigit : n / 10 ^ width % 10 < 10 := Nat.mod_lt _ (by decide)
      have hread : digit? (Fin.ofNat _ (48 + n / 10 ^ width % 10)) = some (n / 10 ^ width % 10) := by
        generalize n / 10 ^ width % 10 = d at hdigit ⊢
        have hval : (Fin.ofNat 0x110000 (48 + d)).val = 48 + d := Nat.mod_eq_of_lt (by omega)
        unfold digit?
        rw [hval, if_pos (by omega), Nat.add_sub_cancel_left]
      simp only [pad, List.cons_append, digits, hread, Option.bind_some, ih]
      have hmod : n % 10 ^ (width + 1) = n / 10 ^ width % 10 * 10 ^ width + n % 10 ^ width := by
        rw [Nat.pow_succ, Nat.mod_mul]
        ring
      rw [hmod]
      congr 2
      ring

theorem digits_pad_of_lt {width n : Nat} (h : n < 10 ^ width) (s : Str) :
    digits width 0 (pad width n ++ s) = some (n, s) := by
  rw [digits_pad, Nat.zero_mul, Nat.zero_add, Nat.mod_eq_of_lt h]

theorem literal_cons (c : Char) (s : Str) : literal c (.ofChar c :: s) = some s := if_pos rfl

end Digits

namespace DateTime

def fractionText (micros : Nat) : Str := if micros = 0 then [] else .ofChar '.' :: pad 6 micros

def timeText (micros : Nat) : Str :=
  pad 2 (micros / 3600000000) ++ .ofChar ':' :: (pad 2 (micros / 60000000 % 60) ++ .ofChar ':' ::
    (pad 2 (micros / 1000000 % 60) ++ fractionText (micros % 1000000)))

-- The seconds of an offset are written if there are any.
def offsetText : Option Int → Str
  | none => []
  | some ahead =>
      .ofChar (if ahead < 0 then '-' else '+') ::
        if ahead.natAbs % 60000000 = 0 then
          pad 2 (ahead.natAbs / 3600000000) ++ .ofChar ':' :: pad 2 (ahead.natAbs / 60000000 % 60)
        else timeText ahead.natAbs

def isoformat (d : DateTime) : Str :=
  let date := Date.fromOrdinal (d.micros / microsPerDay)
  pad 4 date.year ++ .ofChar '-' :: (pad 2 date.month ++ .ofChar '-' :: (pad 2 date.day ++
    .ofChar 'T' :: (timeText (d.micros % microsPerDay) ++ offsetText d.offset)))

section Reader

-- The reader is that of CPython 3.11 and 3.12. It takes the formats of ISO 8601 that the documentation
-- names: dates by month or by week, hyphens and colons all there or all left out, times down to the
-- hour, and fractions of any length. What it takes besides is said where it does.

def isDigit (c : CodePoint) : Bool := (digit? c).isSome

-- A NUL is taken for the end of the text.
def ended : Str → Bool
  | [] => true
  | c :: _ => c.val = 0

-- The weekday of a week date, Monday if there is none. A hyphen is the one before the weekday unless
-- a time seems to follow it; without hyphens the number of digits decides.
def readWeekday : Bool → Str → Option (Nat × Str)
  | true, s =>
      match literal '-' s with
      | none => some (1, s)
      | some rest => if rest[1]?.any isDigit then some (1, s) else digits 1 0 rest
  | false, s =>
      let run := (s.takeWhile isDigit).length
      if run = 1 ∨ run ≠ 0 ∧ run % 2 = 0 then digits 1 0 s else some (1, s)

def readDate (s : Str) : Option (Date × Str) := do
  let (year, s) ← digits 4 0 s
  let dashed := (literal '-' s).isSome
  let s := (literal '-' s).getD s
  match literal 'W' s with
  | some s =>
      let (week, s) ← digits 2 0 s
      let (weekday, s) ← readWeekday dashed s
      let date ← Date.ofWeek year week weekday
      return (date, s)
  | none =>
      let (month, s) ← digits 2 0 s
      let s ← if dashed then literal '-' s else some s
      let (day, s) ← digits 2 0 s
      return (⟨year, month, day⟩, s)

-- What is read of a time: hours, minutes and seconds as far as they are given, the fraction of a
-- second, and whether something is left over.
structure TimeParts where
  numbers : List Nat
  fraction : Nat
  left : Bool

namespace TimeParts

def hour (t : TimeParts) : Nat := t.numbers.getD 0 0

def minute (t : TimeParts) : Nat := t.numbers.getD 1 0

def second (t : TimeParts) : Nat := t.numbers.getD 2 0

def micros (t : TimeParts) : Nat := ((t.hour * 60 + t.minute) * 60 + t.second) * 1000000 + t.fraction

def prepend (n : Nat) (t : TimeParts) : TimeParts := { t with numbers := n :: t.numbers }

end TimeParts

-- Digits after the sixth are passed over.
def readFraction (s : Str) : Option TimeParts := do
  let width := min s.length 6
  let (value, s) ← digits width 0 s
  return ⟨[], value * 10 ^ (6 - width), !ended (s.dropWhile isDigit)⟩

-- So many numbers of two digits. A fraction is taken for one of a second wherever it stands, and with
-- or without a mark once there are three numbers; a single character may be left over.
def readNumbers (colons : Bool) : Nat → Str → Option TimeParts
  | 0, s => readFraction s
  | count + 1, s => do
      let (n, s) ← digits 2 0 s
      Option.map (TimeParts.prepend n) <|
        match s with
        | [] => some ⟨[], 0, false⟩
        | [c] => if c.val < 0x80 then some ⟨[], 0, !ended [c]⟩ else none
        | c :: s =>
            if colons ∧ c = .ofChar ':' then readNumbers colons count s
            else if c = .ofChar '.' ∨ c = .ofChar ',' then readFraction s
            else if colons then none
            else readNumbers colons count (c :: s)

def readTime (s : Str) : Option TimeParts := readNumbers (s[2]? = some (.ofChar ':')) 3 s

def isZoneSign (c : CodePoint) : Bool := c = .ofChar '+' ∨ c = .ofChar '-' ∨ c = .ofChar 'Z'

def readZone : Str → Option (Option Int)
  | [] => some none
  | c :: s =>
      if c = .ofChar 'Z' then if ended s then some (some 0) else none
      else do
        let parts ← readTime s
        guard (parts.left = false)
        let ahead : Int := if parts.micros < 1000000 then 0 else parts.micros
        return some (if c = .ofChar '-' then -ahead else ahead)

-- What is left over of the time is passed over if an offset follows. Only the separator before it
-- may be a surrogate.
def readTimeAndZone (s : Str) : Option (TimeParts × Option Int) := do
  guard (s.all fun c => c.val.isValidChar)
  let zone := s.dropWhile fun c => !isZoneSign c
  let parts ← readTime (s.takeWhile fun c => !isZoneSign c)
  guard (parts.left = false ∨ zone ≠ [])
  let offset ← readZone zone
  return (parts, offset)

-- Any character may separate date and time.
def fromisoformat (s : Str) : Option DateTime := do
  let (date, s) ← readDate s
  let (parts, offset) ←
    match s with
    | [] => some (⟨[], 0, false⟩, none)
    | _ :: s => readTimeAndZone s
  guard (date.IsValid ∧ parts.hour < 24 ∧ parts.minute < 60 ∧ parts.second < 60)
  if h : date.toOrdinal * microsPerDay + parts.micros < endOfTime ∧ ∀ ahead ∈ offset, IsOffset ahead then
    some ⟨date.toOrdinal * microsPerDay + parts.micros, offset, h.1, h.2⟩
  else none

end Reader

section RoundTrip

variable {colons : Bool} {count n micros : Nat} {s : Str} {c : CodePoint}

theorem forall_pad {p : CodePoint → Prop} (h : ∀ d < 10, p (Fin.ofNat _ (48 + d))) (width n : Nat) :
    ∀ c ∈ pad width n, p c := by
  induction width with
  | zero => exact fun _ hc => absurd hc List.not_mem_nil
  | succ width ih => exact List.forall_mem_cons.mpr ⟨h _ (Nat.mod_lt _ (by decide)), ih⟩

-- Digits, colons and a dot: nothing that ends a time, and nothing that takes two code units.
theorem timeText_char (micros : Nat) :
    ∀ c ∈ timeText micros, isZoneSign c = false ∧ c.val < 0x80 := by
  have hpad := forall_pad (p := fun c => isZoneSign c = false ∧ c.val < 0x80) (by decide)
  have hfraction (micros : Nat) : ∀ c ∈ fractionText micros, isZoneSign c = false ∧ c.val < 0x80 := by
    unfold fractionText
    split
    · exact fun _ hc => absurd hc List.not_mem_nil
    · exact List.forall_mem_cons.mpr ⟨by decide, hpad _ _⟩
  unfold timeText
  simp only [List.forall_mem_append, List.forall_mem_cons]
  exact ⟨hpad _ _, by decide, hpad _ _, by decide, hpad _ _, hfraction _⟩

theorem offsetText_ascii (offset : Option Int) : ∀ c ∈ offsetText offset, c.val < 0x80 := by
  have hpad := forall_pad (p := fun c => c.val < 0x80) (by decide)
  cases offset with
  | none => exact fun _ hc => absurd hc List.not_mem_nil
  | some ahead =>
      have hsign : (CodePoint.ofChar (if ahead < 0 then '-' else '+')).val < 0x80 := by
        split <;> decide
      refine List.forall_mem_cons.mpr ⟨hsign, ?_⟩
      split
      · exact List.forall_mem_append.mpr ⟨hpad _ _, List.forall_mem_cons.mpr ⟨by decide, hpad _ _⟩⟩
      · exact fun c hc => (timeText_char _ c hc).2

theorem paired_isoformat (d : DateTime) : Json.Paired d.isoformat := by
  have hpad := forall_pad (p := fun c => c.val < 0x80) (by decide)
  have hall : ∀ c ∈ d.isoformat, c.val < 0x80 := by
    unfold isoformat
    simp only [List.forall_mem_append, List.forall_mem_cons]
    exact ⟨hpad _ _, by decide, hpad _ _, by decide, hpad _ _, by decide,
      fun c hc => (timeText_char _ c hc).2, offsetText_ascii _⟩
  refine Json.paired_of_forall fun c hc hhigh => ?_
  have hlow : 0xd800 ≤ c.val := hhigh.1
  exact absurd (hall c hc) (by omega)

theorem readNumbers_last (h : n < 100) :
    readNumbers colons (count + 1) (pad 2 n) = some ⟨[n], 0, false⟩ := by
  have hread : digits 2 0 (pad 2 n ++ []) = some (n, []) := digits_pad_of_lt h []
  rw [List.append_nil] at hread
  rw [readNumbers, hread]
  rfl

theorem readNumbers_colon (h : n < 100) :
    readNumbers true (count + 1) (pad 2 n ++ .ofChar ':' :: c :: s) =
      (readNumbers true count (c :: s)).map (.prepend n) := by
  rw [readNumbers, digits_pad_of_lt h]
  exact congrArg (Option.map (TimeParts.prepend n)) (if_pos ⟨rfl, rfl⟩)

theorem readFraction_pad (h : micros < 1000000) : readFraction (pad 6 micros) = some ⟨[], micros, false⟩ := by
  have hread : digits 6 0 (pad 6 micros ++ []) = some (micros, []) := digits_pad_of_lt h []
  rw [List.append_nil] at hread
  show (digits 6 0 (pad 6 micros)).bind _ = _
  rw [hread]
  exact congrArg (fun fraction => some (⟨[], fraction, false⟩ : TimeParts)) (Nat.mul_one micros)

theorem readNumbers_fraction (h : n < 100) (hmicros : micros < 1000000) :
    readNumbers colons (count + 1) (pad 2 n ++ .ofChar '.' :: pad 6 micros) = some ⟨[n], micros, false⟩ := by
  have hcolon : ¬(colons = true ∧ CodePoint.ofChar '.' = .ofChar ':') := fun hc => absurd hc.2 (by decide)
  rw [readNumbers, digits_pad_of_lt h]
  have hfraction := congrArg (Option.map (TimeParts.prepend n)) (readFraction_pad hmicros)
  exact (congrArg (Option.map (TimeParts.prepend n)) ((if_neg hcolon).trans (if_pos (.inl rfl)))).trans
    hfraction

theorem readNumbers_seconds (h : n < 100) (hmicros : micros < 1000000) :
    readNumbers colons (count + 1) (pad 2 n ++ fractionText micros) = some ⟨[n], micros, false⟩ := by
  unfold fractionText
  split
  · rename_i hz
    rw [List.append_nil, readNumbers_last h, hz]
  · exact readNumbers_fraction h hmicros

-- A whole time is read as its parts, and they make it up.
theorem readTime_timeText (h : micros < microsPerDay) :
    readTime (timeText micros) = some ⟨[micros / 3600000000, micros / 60000000 % 60,
      micros / 1000000 % 60], micros % 1000000, false⟩ := by
  unfold microsPerDay at h
  have hhour : micros / 3600000000 < 100 := by omega
  have hminute : micros / 60000000 % 60 < 100 := by omega
  have hsecond : micros / 1000000 % 60 < 100 := by omega
  have hfraction : micros % 1000000 < 1000000 := Nat.mod_lt _ (by decide)
  show readNumbers true 3 _ = _
  rw [timeText]
  have hseconds : readNumbers true 1 (pad 2 (micros / 1000000 % 60) ++ fractionText (micros % 1000000)) =
      some ⟨[micros / 1000000 % 60], micros % 1000000, false⟩ := readNumbers_seconds hsecond hfraction
  have hminutes : readNumbers true 2 (pad 2 (micros / 60000000 % 60) ++ .ofChar ':' ::
      (pad 2 (micros / 1000000 % 60) ++ fractionText (micros % 1000000))) =
        some ⟨[micros / 60000000 % 60, micros / 1000000 % 60], micros % 1000000, false⟩ :=
    (readNumbers_colon hminute).trans (congrArg _ hseconds)
  exact (readNumbers_colon hhour).trans (congrArg _ hminutes)

theorem micros_timeText (micros : Nat) : TimeParts.micros ⟨[micros / 3600000000, micros / 60000000 % 60,
    micros / 1000000 % 60], micros % 1000000, false⟩ = micros := by
  show ((micros / 3600000000 * 60 + micros / 60000000 % 60) * 60 + micros / 1000000 % 60) * 1000000 +
    micros % 1000000 = micros
  omega

theorem readTime_minutes {hour minute : Nat} (hhour : hour < 100) (hminute : minute < 100) :
    readTime (pad 2 hour ++ .ofChar ':' :: pad 2 minute) = some ⟨[hour, minute], 0, false⟩ :=
  (readNumbers_colon hhour).trans (congrArg _ (readNumbers_last hminute))

-- What is written of an offset is read as its size.
theorem readZone_size {size : Nat} {text : Str} {parts : TimeParts} {sign : Char}
    (htext : readTime text = some parts) (hleft : parts.left = false) (hmicros : parts.micros = size)
    (hsize : size = 0 ∨ 1000000 ≤ size) (hsign : CodePoint.ofChar sign ≠ .ofChar 'Z') :
    readZone (.ofChar sign :: text) =
      some (some (if CodePoint.ofChar sign = .ofChar '-' then -(size : Int) else size)) := by
  have hahead : (if size < 1000000 then 0 else (size : Int)) = size := by
    split <;> omega
  rw [readZone, if_neg hsign, htext]
  simp only [Option.bind_eq_bind, Option.bind_some, hleft, hmicros, hahead]
  rfl

theorem readZone_offsetText {offset : Option Int} (h : ∀ ahead ∈ offset, IsOffset ahead) :
    readZone (offsetText offset) = some offset := by
  cases offset with
  | none => rfl
  | some ahead =>
      obtain ⟨hlt, hsize⟩ := h ahead rfl
      have hsign : CodePoint.ofChar (if ahead < 0 then '-' else '+') ≠ .ofChar 'Z' := by
        split <;> decide
      have hback : (if CodePoint.ofChar (if ahead < 0 then '-' else '+') = .ofChar '-' then
          -(ahead.natAbs : Int) else ahead.natAbs) = ahead := by
        by_cases hneg : ahead < 0
        · rw [if_pos hneg, if_pos rfl]
          omega
        · rw [if_neg hneg, if_neg (by decide)]
          omega
      have hsize : ahead.natAbs = 0 ∨ 1000000 ≤ ahead.natAbs := by omega
      rw [offsetText]
      by_cases hs : ahead.natAbs % 60000000 = 0
      · have hhour : ahead.natAbs / 3600000000 < 100 := by
          unfold microsPerDay at hlt
          omega
        have hminute : ahead.natAbs / 60000000 % 60 < 100 := by omega
        have hread := readTime_minutes hhour hminute
        have hmicros : TimeParts.micros ⟨[ahead.natAbs / 3600000000, ahead.natAbs / 60000000 % 60], 0,
            false⟩ = ahead.natAbs := by
          show ((ahead.natAbs / 3600000000 * 60 + ahead.natAbs / 60000000 % 60) * 60 + 0) * 1000000 + 0 = _
          omega
        rw [if_pos hs, readZone_size hread rfl hmicros hsize hsign, hback]
      · rw [if_neg hs, readZone_size (readTime_timeText hlt) rfl (micros_timeText _) hsize hsign, hback]

theorem readTimeAndZone_text {offset : Option Int} (h : micros < microsPerDay)
    (hoffset : ∀ ahead ∈ offset, IsOffset ahead) :
    readTimeAndZone (timeText micros ++ offsetText offset) =
      some (⟨[micros / 3600000000, micros / 60000000 % 60, micros / 1000000 % 60], micros % 1000000,
        false⟩, offset) := by
  have hascii : (timeText micros ++ offsetText offset).all fun c => c.val.isValidChar := by
    rw [List.all_eq_true]
    intro c hc
    have hlt : c.val < 0x80 := (List.mem_append.mp hc).elim (fun h => (timeText_char _ c h).2)
      (offsetText_ascii _ c)
    exact decide_eq_true (.inl (by omega))
  have htime : ∀ c ∈ timeText micros, (!isZoneSign c) = true := fun c hc => by
    rw [(timeText_char _ c hc).1]
    rfl
  have hzone : (offsetText offset).takeWhile (fun c => !isZoneSign c) = [] ∧
      (offsetText offset).dropWhile (fun c => !isZoneSign c) = offsetText offset := by
    cases offset with
    | none => exact ⟨rfl, rfl⟩
    | some ahead =>
        have hsign : isZoneSign (.ofChar (if ahead < 0 then '-' else '+')) = true := by
          split <;> decide
        simp [offsetText, hsign]
  unfold readTimeAndZone
  rw [hascii, List.takeWhile_append_of_pos htime, List.dropWhile_append_of_pos htime, hzone.1, hzone.2,
    List.append_nil, readTime_timeText h]
  show (readZone (offsetText offset)).bind _ = _
  rw [readZone_offsetText hoffset]
  rfl

theorem getD_daysOfMonths_le (year month : Nat) : (daysOfMonths year).getD month 0 ≤ 31 := by
  by_cases hm : month < (daysOfMonths year).length
  · rw [List.getD_eq_getElem _ _ hm]
    have hall : ∀ days ∈ daysOfMonths year, days ≤ 31 := by
      unfold daysOfMonths
      split <;> decide
    exact hall _ (List.getElem_mem hm)
  · rw [List.getD_eq_default _ _ (Nat.le_of_not_lt hm)]
    exact Nat.zero_le 31

theorem readDate_text {date : Date} (h : date.IsValid) (s : Str) :
    readDate (pad 4 date.year ++ .ofChar '-' :: (pad 2 date.month ++ .ofChar '-' :: (pad 2 date.day ++ s))) =
      some (date, s) := by
  have hmonths := getD_daysOfMonths_le date.year (date.month - 1)
  obtain ⟨-, hyear, -, hmonth, -, hday⟩ := h
  have hy : date.year < 10 ^ 4 := by omega
  have hm : date.month < 10 ^ 2 := by omega
  have hd : date.day < 10 ^ 2 := by omega
  -- A month is no week: it does not start with the letter.
  have hweek : literal 'W' (pad 2 date.month ++ .ofChar '-' :: (pad 2 date.day ++ s)) = none := by
    have hdigit := forall_pad (p := fun c => c ≠ .ofChar 'W') (by decide) 2 date.month _
      (List.mem_cons_self)
    exact if_neg hdigit
  unfold readDate
  rw [digits_pad_of_lt hy]
  simp only [Option.bind_eq_bind, Option.bind_some, literal_cons, Option.getD_some, hweek, Option.isSome_some,
    if_true, digits_pad_of_lt hm, digits_pad_of_lt hd]
  rfl

-- What isoformat writes, fromisoformat reads.
theorem fromisoformat_isoformat (d : DateTime) : fromisoformat d.isoformat = some d := by
  have hordinal : d.micros / microsPerDay < 3652059 := Nat.div_lt_of_lt_mul (by
    rw [Nat.mul_comm]
    exact d.micros_lt)
  have hvalid := Date.fromOrdinal_isValid hordinal
  have hback := Date.toOrdinal_fromOrdinal (d.micros / microsPerDay)
  have hsum := Nat.div_add_mod' d.micros microsPerDay
  have htime : d.micros % microsPerDay < microsPerDay := Nat.mod_lt _ (by decide)
  unfold isoformat fromisoformat
  dsimp only
  generalize Date.fromOrdinal (d.micros / microsPerDay) = date at hvalid hback ⊢
  generalize d.micros % microsPerDay = time at hsum htime ⊢
  have hhour : time / 3600000000 < 24 := by
    unfold microsPerDay at htime
    omega
  have hminute : time / 60000000 % 60 < 60 := Nat.mod_lt _ (by decide)
  have hsecond : time / 1000000 % 60 < 60 := Nat.mod_lt _ (by decide)
  have htotal : date.toOrdinal * microsPerDay + time = d.micros := by rw [hback, hsum]
  refine Option.bind_eq_some_iff.mpr ⟨_, readDate_text hvalid _, ?_⟩
  refine Option.bind_eq_some_iff.mpr ⟨_, readTimeAndZone_text htime d.isOffset, ?_⟩
  refine Option.bind_eq_some_iff.mpr ⟨(), if_pos ⟨hvalid, hhour, hminute, hsecond⟩, ?_⟩
  dsimp only
  simp only [micros_timeText, htotal]
  exact dif_pos ⟨d.micros_lt, d.isOffset⟩

-- One instant in some of the other formats.
example : ["20111104T000523Z", "2011-W44-5 00:05:23,0+00:00", "2011W445T02:05:23.000+0200"].all
    (fun text => (fromisoformat (.ofString text)).any fun d => d.instant = 63455961923000000) = true := by
  decide +kernel

end RoundTrip

end DateTime

end YasinCore.Library
