import Mathlib.Data.List.GetD
import Mathlib.Tactic.Ring

namespace YasinCore.Library

-- A day of the proleptic Gregorian calendar.
structure Date where
  year : Nat
  month : Nat
  day : Nat
  deriving DecidableEq

def IsLeap (year : Nat) : Prop := year % 4 = 0 ∧ (year % 100 ≠ 0 ∨ year % 400 = 0)

instance (year : Nat) : Decidable (IsLeap year) := inferInstanceAs (Decidable (_ ∧ _))

def daysBeforeYear (year : Nat) : Nat :=
  (year - 1) * 365 + (year - 1) / 4 - (year - 1) / 100 + (year - 1) / 400

def daysInYear (year : Nat) : Nat := if IsLeap year then 366 else 365

def daysOfMonths (year : Nat) : List Nat :=
  [31, if IsLeap year then 29 else 28, 31, 30, 31, 30, 31, 31, 30, 31, 30, 31]

-- The month and the day in it, from the number of days since the start of the first of the months.
def monthAndDay : List Nat → Nat → Nat × Nat
  | [], days => (1, days + 1)
  | length :: lengths, days =>
      if days < length then (1, days + 1)
      else ((monthAndDay lengths (days - length)).1 + 1, (monthAndDay lengths (days - length)).2)

namespace Date

-- Days are counted from zero.
def toOrdinal (date : Date) : Nat :=
  daysBeforeYear date.year + ((daysOfMonths date.year).take (date.month - 1)).sum + (date.day - 1)

def IsValid (date : Date) : Prop :=
  1 ≤ date.year ∧ date.year ≤ 9999 ∧ 1 ≤ date.month ∧ date.month ≤ 12 ∧ 1 ≤ date.day ∧
    date.day ≤ (daysOfMonths date.year).getD (date.month - 1) 0

instance (date : Date) : Decidable date.IsValid := inferInstanceAs (Decidable (_ ∧ _))

-- The year is found by taking away cycles of 400 years, centuries, groups of four years and years;
-- the last century of a cycle and the last year of a group are a day longer than the others.
def yearAndDays (ordinal : Nat) : Nat × Nat :=
  let inCycle := ordinal % 146097
  let centuries := min (inCycle / 36524) 3
  let inCentury := inCycle - centuries * 36524
  let groups := inCentury / 1461
  let inGroup := inCentury % 1461
  let years := min (inGroup / 365) 3
  (ordinal / 146097 * 400 + centuries * 100 + groups * 4 + years + 1, inGroup - years * 365)

section Year

variable {cycles centuries groups years : Nat}

theorem daysBeforeYear_eq (hc : centuries ≤ 3) (hg : groups ≤ 24) (hy : years ≤ 3) :
    daysBeforeYear (cycles * 400 + centuries * 100 + groups * 4 + years + 1) =
      cycles * 146097 + centuries * 36524 + groups * 1461 + years * 365 := by
  unfold daysBeforeYear
  have hpast : cycles * 400 + centuries * 100 + groups * 4 + years + 1 - 1 =
      cycles * 400 + centuries * 100 + groups * 4 + years := by omega
  have hfour : (cycles * 400 + centuries * 100 + groups * 4 + years) / 4 =
      cycles * 100 + centuries * 25 + groups := by omega
  have hhundred : (cycles * 400 + centuries * 100 + groups * 4 + years) / 100 =
      cycles * 4 + centuries := by omega
  have hcycle : (cycles * 400 + centuries * 100 + groups * 4 + years) / 400 = cycles := by omega
  rw [hpast, hfour, hhundred, hcycle]
  omega

theorem isLeap_iff (hc : centuries ≤ 3) (hg : groups ≤ 24) (hy : years ≤ 3) :
    IsLeap (cycles * 400 + centuries * 100 + groups * 4 + years + 1) ↔
      years = 3 ∧ (groups ≠ 24 ∨ centuries = 3) := by
  unfold IsLeap
  omega

end Year

-- How an ordinal is cut up: only the last of four years has 366 days, and not where a century
-- other than the last of its cycle ends.
theorem yearAndDays_parts (ordinal : Nat) : ∃ cycles centuries groups years days,
    centuries ≤ 3 ∧ groups ≤ 24 ∧ years ≤ 3 ∧
    yearAndDays ordinal = (cycles * 400 + centuries * 100 + groups * 4 + years + 1, days) ∧
    cycles * 146097 + centuries * 36524 + groups * 1461 + years * 365 + days = ordinal ∧
    days ≤ 365 ∧ (days = 365 → years = 3 ∧ (groups ≠ 24 ∨ centuries = 3)) := by
  have hcycle : ordinal % 146097 < 146097 := Nat.mod_lt _ (by decide)
  have hordinal := Nat.div_add_mod ordinal 146097
  refine ⟨_, _, _, _, _, Nat.min_le_right .., ?_, Nat.min_le_right .., rfl, ?_⟩
  · generalize ordinal % 146097 = inCycle at hcycle
    have hc : inCycle - min (inCycle / 36524) 3 * 36524 ≤ 36524 := by omega
    omega
  · generalize ordinal / 146097 = cycles at hordinal ⊢
    generalize ordinal % 146097 = inCycle at hcycle hordinal ⊢
    have hc : min (inCycle / 36524) 3 * 36524 ≤ inCycle := by omega
    have hc' : inCycle - min (inCycle / 36524) 3 * 36524 = 36524 → min (inCycle / 36524) 3 = 3 := by
      omega
    have hle : inCycle - min (inCycle / 36524) 3 * 36524 ≤ 36524 := by omega
    generalize min (inCycle / 36524) 3 = centuries at hc hc' hle ⊢
    have hrest : centuries * 36524 + (inCycle - centuries * 36524) = inCycle := by omega
    generalize inCycle - centuries * 36524 = inCentury at hc' hle hrest ⊢
    have hgroup := Nat.div_add_mod inCentury 1461
    have hlt : inCentury % 1461 < 1461 := Nat.mod_lt _ (by decide)
    generalize inCentury / 1461 = groups at hgroup ⊢
    generalize inCentury % 1461 = inGroup at hgroup hlt ⊢
    omega

-- The days before the year and those within it make the ordinal, and the year is long enough.
theorem yearAndDays_spec (ordinal : Nat) :
    daysBeforeYear (yearAndDays ordinal).1 + (yearAndDays ordinal).2 = ordinal ∧
    (yearAndDays ordinal).2 < daysInYear (yearAndDays ordinal).1 := by
  obtain ⟨cycles, centuries, groups, years, days, hc, hg, hy, he, hsum, hle, hlast⟩ :=
    yearAndDays_parts ordinal
  rw [he, daysInYear, daysBeforeYear_eq hc hg hy]
  refine ⟨hsum, ?_⟩
  by_cases hl : years = 3 ∧ (groups ≠ 24 ∨ centuries = 3)
  · rw [if_pos ((isLeap_iff hc hg hy).mpr hl)]
    exact Nat.lt_succ_of_le hle
  · rw [if_neg fun h => hl ((isLeap_iff hc hg hy).mp h)]
    show days < 365
    omega

theorem one_le_year (ordinal : Nat) : 1 ≤ (yearAndDays ordinal).1 := Nat.le_add_left ..

theorem year_le (ordinal : Nat) (h : ordinal < 3652059) : (yearAndDays ordinal).1 ≤ 9999 := by
  obtain ⟨cycles, centuries, groups, years, days, hc, hg, hy, he, hsum, hle, hlast⟩ :=
    yearAndDays_parts ordinal
  rw [he]
  show cycles * 400 + centuries * 100 + groups * 4 + years + 1 ≤ 9999
  omega

theorem sum_daysOfMonths (year : Nat) : (daysOfMonths year).sum = daysInYear year := by
  unfold daysOfMonths daysInYear
  split <;> rfl

-- The days of the months before the one found and those in it make the number of days.
theorem monthAndDay_spec {lengths : List Nat} {days : Nat} (h : days < lengths.sum) :
    1 ≤ (monthAndDay lengths days).1 ∧ (monthAndDay lengths days).1 ≤ lengths.length ∧
    1 ≤ (monthAndDay lengths days).2 ∧
    (monthAndDay lengths days).2 ≤ lengths.getD ((monthAndDay lengths days).1 - 1) 0 ∧
    (lengths.take ((monthAndDay lengths days).1 - 1)).sum + ((monthAndDay lengths days).2 - 1) =
      days := by
  induction lengths generalizing days with
  | nil => simp at h
  | cons length lengths ih =>
      by_cases hd : days < length
      · simp only [monthAndDay, if_pos hd]
        exact ⟨le_rfl, by simp, by omega, hd, by simp⟩
      · rw [List.sum_cons] at h
        have hrest : days - length < lengths.sum := by omega
        obtain ⟨hm, hm', hday, hday', hsum⟩ := ih hrest
        simp only [monthAndDay, if_neg hd]
        obtain ⟨month, hmonth⟩ := Nat.exists_eq_add_of_le' hm
        simp only [hmonth, Nat.add_sub_cancel, List.take_succ_cons, List.sum_cons, List.length_cons,
          List.getD_cons_succ] at hm' hday' hsum ⊢
        exact ⟨by omega, by omega, hday, hday', by omega⟩

-- A day of a year, counted from zero.
def ofYear (year days : Nat) : Date :=
  ⟨year, (monthAndDay (daysOfMonths year) days).1, (monthAndDay (daysOfMonths year) days).2⟩

theorem ofYear_isValid {year days : Nat} (hdays : days < daysInYear year) (hyear : 1 ≤ year)
    (hyear' : year ≤ 9999) : (ofYear year days).IsValid := by
  rw [← sum_daysOfMonths] at hdays
  obtain ⟨hm, hm', hday, hday', -⟩ := monthAndDay_spec hdays
  exact ⟨hyear, hyear', hm, hm', hday, hday'⟩

theorem toOrdinal_ofYear {year days : Nat} (hdays : days < daysInYear year) :
    (ofYear year days).toOrdinal = daysBeforeYear year + days := by
  rw [← sum_daysOfMonths] at hdays
  obtain ⟨-, -, -, -, hmonths⟩ := monthAndDay_spec hdays
  unfold toOrdinal ofYear
  dsimp only
  rw [Nat.add_assoc, hmonths]

def fromOrdinal (ordinal : Nat) : Date := ofYear (yearAndDays ordinal).1 (yearAndDays ordinal).2

-- The day that a week of ISO 8601 and a weekday name, both counted from one. The first week has the
-- first Thursday of the year in it; ordinal zero is a Monday.
def ofWeek (year week weekday : Nat) : Option Date :=
  let first := daysBeforeYear year % 7
  let monday := daysBeforeYear year - first + if first ≤ 3 then 0 else 7
  let weeks := if first = 3 ∨ first = 2 ∧ IsLeap year then 53 else 52
  if 1 ≤ year ∧ 1 ≤ week ∧ week ≤ weeks ∧ 1 ≤ weekday ∧ weekday ≤ 7 then
    some (fromOrdinal (monday + (week - 1) * 7 + (weekday - 1)))
  else none

theorem ofYear_month (year days : Nat) :
    (ofYear year days).month = (monthAndDay (daysOfMonths year) days).1 := rfl

theorem ofYear_day (year days : Nat) :
    (ofYear year days).day = (monthAndDay (daysOfMonths year) days).2 := rfl

theorem fromOrdinal_isValid {ordinal : Nat} (h : ordinal < 3652059) : (fromOrdinal ordinal).IsValid :=
  ofYear_isValid (yearAndDays_spec ordinal).2 (one_le_year ordinal) (year_le ordinal h)

theorem toOrdinal_fromOrdinal (ordinal : Nat) : (fromOrdinal ordinal).toOrdinal = ordinal :=
  (toOrdinal_ofYear (yearAndDays_spec ordinal).2).trans (yearAndDays_spec ordinal).1

end Date

def microsPerDay : Nat := 86400000000

-- The first microsecond after the last day of the year 9999.
def endOfTime : Nat := 3652059 * microsPerDay

-- How far a clock may be ahead of UTC, in microseconds: less than a day, and a second at least unless
-- it shows UTC, since CPython reads an offset below a second as none.
def IsOffset (micros : Int) : Prop := micros.natAbs < microsPerDay ∧ (micros = 0 ∨ 1000000 ≤ micros.natAbs)

instance (micros : Int) : Decidable (IsOffset micros) := inferInstanceAs (Decidable (_ ∧ _))

-- A date and time, in microseconds since the first instant of the calendar, and how far its clock
-- is ahead of UTC if that is known.
structure DateTime where
  micros : Nat
  offset : Option Int
  micros_lt : micros < endOfTime
  isOffset : ∀ ahead ∈ offset, IsOffset ahead

namespace DateTime

theorem utc_isOffset : ∀ ahead ∈ some (0 : Int), IsOffset ahead := by
  simp [IsOffset, microsPerDay]

theorem no_isOffset : ∀ ahead ∈ (none : Option Int), IsOffset ahead := by
  simp

def isAware (d : DateTime) : Bool := d.offset.isSome

-- The instant in UTC, a clock without an offset taken at its word.
def instant (d : DateTime) : Int := d.micros - d.offset.getD 0

-- The sum with a timedelta of whole seconds; none is the OverflowError.
def addSeconds (d : DateTime) (seconds : Int) : Option DateTime :=
  if h : 0 ≤ d.micros + seconds * 1000000 ∧ d.micros + seconds * 1000000 < endOfTime then
    some ⟨(d.micros + seconds * 1000000).toNat, d.offset, by omega, d.isOffset⟩
  else none

-- The sum with any timedelta.
def addMicros (d : DateTime) (micros : Int) : Option DateTime :=
  if h : 0 ≤ d.micros + micros ∧ d.micros + micros < endOfTime then
    some ⟨(d.micros + micros).toNat, d.offset, by omega, d.isOffset⟩
  else none

end DateTime

end YasinCore.Library
