import YasinCore.Library.Text
import Mathlib.Algebra.Order.Ring.Int

namespace YasinCore.Scheduling

open YasinCore.Library

-- A local time cut to the minute is the number of minutes since the first instant of the calendar;
-- this is the first minute after its last day.
def endOfTime : Nat := 3652059 * 1440

def minuteOf (time : Nat) : Nat := time % 60

def hourOf (time : Nat) : Nat := time / 60 % 24

-- Days are counted from zero, and the first day is a Monday.
def ordinalOf (time : Nat) : Nat := time / 1440

def weekdayOf (time : Nat) : Nat := ordinalOf time % 7

-- Whether a day lies in a leap year, and how many days of its year come before it: whole centuries,
-- groups of four years and years are taken away, the last of each being longer than the others.
def yearDay (ordinal : Nat) : Bool × Nat :=
  let inCycle := ordinal % 146097
  let centuries := min (inCycle / 36524) 3
  let inCentury := inCycle - centuries * 36524
  let groups := inCentury / 1461
  let inGroup := inCentury % 1461
  let years := min (inGroup / 365) 3
  (years = 3 ∧ (groups ≠ 24 ∨ centuries = 3), inGroup - years * 365)

def monthLengths (leap : Bool) : List Nat :=
  [31, if leap then 29 else 28, 31, 30, 31, 30, 31, 31, 30, 31, 30, 31]

-- The month and the day of the month, from a number of days after the start of a month.
def monthDay : List Nat → Nat → Nat → Nat × Nat
  | [], month, days => (month, days + 1)
  | length :: lengths, month, days =>
      if days < length then (month, days + 1) else monthDay lengths (month + 1) (days - length)

def dateOf (ordinal : Nat) : Nat × Nat :=
  let (leap, days) := yearDay ordinal
  monthDay (monthLengths leap) 1 days

def monthOf (time : Nat) : Nat := (dateOf (ordinalOf time)).1

def dayOf (time : Nat) : Nat := (dateOf (ordinalOf time)).2

-- The arguments of a range; the last one is not zero.
structure Span where
  start : Int
  stop : Int
  stride : Int
  deriving DecidableEq

def Span.contains (span : Span) (n : Int) : Bool :=
  if 0 < span.stride then span.start ≤ n ∧ n < span.stop ∧ (n - span.start) % span.stride = 0
  else span.stop < n ∧ n ≤ span.start ∧ (span.start - n) % (-span.stride) = 0

-- The values of a field, as the ranges they were given by.
abbrev Field := List Span

def Field.contains (field : Field) (n : Nat) : Bool := field.any fun span => span.contains n

def parseBounds (part : String) (minVal maxVal : Int) : Option (Int × Int) :=
  if part = "*" then some (minVal, maxVal)
  else
    match Text.split '-' part with
    | [value] => (Text.int? value).map fun n => (n, n)
    | [start, stop] => do return (← Text.int? start, ← Text.int? stop)
    | _ => none

def parsePart (minVal maxVal : Int) (part : String) : Option Span := do
  let (part, stride) ←
    match Text.split '/' part with
    | [part] => some (part, 1)
    | [part, stride] => (Text.int? stride).map fun stride => (part, stride)
    | _ => none
  let (start, stop) ← parseBounds part minVal maxVal
  guard (stride ≠ 0)
  return ⟨start, stop + 1, stride⟩

-- parse_cron_field, with none for every ValueError.
def parseCronField (field : String) (minVal maxVal : Int) : Option Field :=
  if field = "*" then some [⟨minVal, maxVal + 1, 1⟩]
  else (Text.split ',' field).mapM (parsePart minVal maxVal)

structure Cron where
  minutes : Field
  hours : Field
  days : Field
  months : Field
  daysOfWeek : Field

def Cron.parse (expr : String) : Option Cron :=
  match Text.words expr with
  | [minutes, hours, days, months, daysOfWeek] => do
      return {
        minutes := ← parseCronField minutes 0 59
        hours := ← parseCronField hours 0 23
        days := ← parseCronField days 1 31
        months := ← parseCronField months 1 12
        daysOfWeek := ← parseCronField daysOfWeek 0 7 }
  | _ => none

-- Days of the week start on Sunday, which is also the seventh.
def Cron.weekdayMatches (cron : Cron) (weekday : Nat) : Bool :=
  cron.daysOfWeek.contains weekday || (weekday = 0 && cron.daysOfWeek.contains 7)

def Cron.matches (cron : Cron) (time : Nat) : Bool :=
  cron.minutes.contains (minuteOf time) && cron.hours.contains (hourOf time) &&
    cron.days.contains (dayOf time) && cron.months.contains (monthOf time) &&
    cron.weekdayMatches ((weekdayOf time + 1) % 7)

-- The search loop; it gives up at its limit, or raises at the end of the calendar.
def Cron.search (cron : Cron) : Nat → Nat → Option Nat
  | 0, _ => none
  | tries + 1, current =>
      if endOfTime ≤ current then none
      else if cron.matches current then some current
      else cron.search tries (current + 1)

def searchWindow : Nat := 100000

def getNextCronTime (expr : String) (baseTime : Nat) : Option Nat :=
  (Cron.parse expr).bind fun cron => cron.search searchWindow (baseTime + 1)

-- The first minute after another one, within the window and the calendar, that an expression names.
structure Cron.First (cron : Cron) (baseTime m : Nat) : Prop where
  after : baseTime < m
  within : m ≤ baseTime + searchWindow
  exists_time : m < endOfTime
  named : cron.matches m
  none_before : ∀ other, baseTime < other → other < m → cron.matches other = false

theorem Cron.search_eq_some_iff {cron : Cron} {tries : Nat} {current m : Nat} :
    cron.search tries current = some m ↔ current ≤ m ∧ m < current + tries ∧ m < endOfTime ∧
      cron.matches m ∧ ∀ other, current ≤ other → other < m → cron.matches other = false := by
  induction tries generalizing current with
  | zero =>
      constructor
      · intro h
        cases h
      · intro h
        omega
  | succ tries ih =>
      rw [Cron.search]
      by_cases hend : endOfTime ≤ current
      · rw [if_pos hend]
        refine iff_of_false (by simp) fun h => ?_
        omega
      · rw [if_neg hend]
        by_cases hm : cron.matches current
        · rw [if_pos hm]
          constructor
          · intro h
            obtain rfl := Option.some.inj h
            exact ⟨le_rfl, by omega, by omega, hm, fun other hlow hhigh => by omega⟩
          · rintro ⟨hle, -, -, -, hno⟩
            by_contra hne
            have hlt : current < m := lt_of_le_of_ne hle fun he => hne (congrArg some he)
            rw [hno current le_rfl hlt] at hm
            cases hm
        · rw [if_neg hm, ih]
          have hno : cron.matches current = false := by simpa using hm
          constructor
          · rintro ⟨hle, hlt, htime, hnamed, hbefore⟩
            refine ⟨by omega, by omega, htime, hnamed, fun other hlow hhigh => ?_⟩
            rcases Nat.eq_or_lt_of_le hlow with rfl | hlow
            · exact hno
            · exact hbefore other hlow hhigh
          · rintro ⟨hle, hlt, htime, hnamed, hbefore⟩
            have hne : current ≠ m := by
              rintro rfl
              exact hm hnamed
            exact ⟨by omega, by omega, htime, hnamed, fun other hlow => hbefore other (by omega)⟩

-- The search finds the first match and nothing else.
theorem getNextCronTime_eq_some_iff {expr : String} {baseTime m : Nat} :
    getNextCronTime expr baseTime = some m ↔
      ∃ cron, Cron.parse expr = some cron ∧ cron.First baseTime m := by
  unfold getNextCronTime
  rw [Option.bind_eq_some_iff]
  refine exists_congr fun cron => and_congr_right fun _ => ?_
  rw [Cron.search_eq_some_iff]
  constructor
  · rintro ⟨hle, hlt, htime, hnamed, hbefore⟩
    exact ⟨hle, by omega, htime, hnamed, hbefore⟩
  · intro h
    have hwithin := h.within
    exact ⟨h.after, by omega, h.exists_time, h.named, h.none_before⟩

end YasinCore.Scheduling
