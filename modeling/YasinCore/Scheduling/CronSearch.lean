import YasinCore.Library.DateTime
import YasinCore.Scheduling.DueTimes

namespace YasinCore.Scheduling

open YasinCore.Library

section Calendar

theorem yearDay_days (ordinal : Nat) : (yearDay ordinal).2 = (Date.yearAndDays ordinal).2 := rfl

theorem yearDay_isLeap (ordinal : Nat) :
    (yearDay ordinal).1 = true ↔ IsLeap (Date.yearAndDays ordinal).1 := by
  have hcycle : ordinal % 146097 < 146097 := Nat.mod_lt _ (by decide)
  unfold yearDay Date.yearAndDays
  simp only [decide_eq_true_eq]
  refine (Date.isLeap_iff (Nat.min_le_right _ _) ?_ (Nat.min_le_right _ _)).symm
  generalize ordinal % 146097 = inCycle at hcycle ⊢
  have hc : inCycle - min (inCycle / 36524) 3 * 36524 ≤ 36524 := by omega
  omega

theorem monthDay_eq (lengths : List Nat) (month days : Nat) :
    (monthDay lengths (month + 1) days).1 = (monthAndDay lengths days).1 + month ∧
      (monthDay lengths (month + 1) days).2 = (monthAndDay lengths days).2 := by
  induction lengths generalizing month days with
  | nil => exact ⟨Nat.add_comm month 1, rfl⟩
  | cons length lengths ih =>
      obtain ⟨hmonth, hday⟩ := ih (month + 1) (days - length)
      rw [monthDay, monthAndDay]
      split
      · exact ⟨Nat.add_comm month 1, rfl⟩
      · refine ⟨hmonth.trans ?_, hday⟩
        dsimp only
        omega

-- The months and days of the search are those of the calendar. The parts are compared one by one:
-- evaluating a date for an ordinal that is not known takes the kernel long.
theorem dateOf_eq (ordinal : Nat) : (dateOf ordinal).1 = (Date.fromOrdinal ordinal).month ∧
    (dateOf ordinal).2 = (Date.fromOrdinal ordinal).day := by
  have hlengths : monthLengths (yearDay ordinal).1 = daysOfMonths (Date.yearAndDays ordinal).1 := by
    unfold monthLengths daysOfMonths
    have hleap := yearDay_isLeap ordinal
    by_cases h : (yearDay ordinal).1 = true
    · rw [if_pos h, if_pos (hleap.mp h)]
    · rw [if_neg h, if_neg (hleap.not.mp h)]
  have hdate : dateOf ordinal = monthDay (monthLengths (yearDay ordinal).1) 1 (yearDay ordinal).2 :=
    rfl
  obtain ⟨hmonth, hday⟩ :=
    monthDay_eq (daysOfMonths (Date.yearAndDays ordinal).1) 0 (Date.yearAndDays ordinal).2
  rw [hdate, hlengths, yearDay_days, Date.fromOrdinal, Date.ofYear_month, Date.ofYear_day]
  exact ⟨hmonth.trans (Nat.add_zero _), hday⟩

end Calendar

-- The exceptions of get_next_cron_time
inductive CronError
  | valueError
  | overflowError
  deriving DecidableEq

def microsPerMinute : Nat := 60000000

-- The minute in which a time lies, counted from the first one of the calendar
def minuteIndex (time : DateTime) : Nat := time.micros / microsPerMinute

-- The five tests of the search loop
def Cron.accepts (cron : Cron) (time : DateTime) : Bool :=
  let date := Date.fromOrdinal (time.micros / microsPerDay)
  cron.minutes.contains (time.micros / microsPerMinute % 60) &&
    cron.hours.contains (time.micros / (60 * microsPerMinute) % 24) &&
    cron.days.contains date.day && cron.months.contains date.month &&
    cron.weekdayMatches ((time.micros / microsPerDay + 1) % 7)

-- base_time.replace(second=0, microsecond=0)
def truncated (time : DateTime) : DateTime where
  micros := minuteIndex time * microsPerMinute
  offset := time.offset
  micros_lt := Nat.lt_of_le_of_lt (Nat.div_mul_le_self _ _) time.micros_lt
  isOffset := time.isOffset

theorem truncated_micros (time : DateTime) :
    (truncated time).micros = minuteIndex time * microsPerMinute := by
  unfold truncated
  rfl

-- The time a minute later, unless the calendar ends there
def minuteLater (time : DateTime) : Option DateTime := time.addMicros microsPerMinute

-- The search loop: it gives up at its limit, or raises at the end of the calendar.
def searchLoop {α : Type} (accepts : α → Bool) (later : α → Option α) : Nat → α → Except CronError α
  | 0, _ => .error .valueError
  | tries + 1, current =>
      if accepts current then .ok current
      else
        match later current with
        | none => .error .overflowError
        | some next => searchLoop accepts later tries next

def Cron.searchFrom (cron : Cron) (tries : Nat) (current : DateTime) : Except CronError DateTime :=
  searchLoop cron.accepts minuteLater tries current

-- The search from the first minute after the base time, unless the calendar ends there
def searchAfter (expr : String) : Option DateTime → Except CronError DateTime
  | none => .error .overflowError
  | some current =>
      match Cron.parse expr with
      | none => .error .valueError
      | some cron => cron.searchFrom searchWindow current

-- get_next_cron_time, with its exceptions and the whole of its base time.
def nextCronTime (expr : String) (baseTime : DateTime) : Except CronError DateTime :=
  searchAfter expr (minuteLater (truncated baseTime))

section Search

variable {cron : Cron} {current base time : DateTime} {tries minute : Nat}

theorem accepts_eq (h : time.micros = minute * microsPerMinute) :
    cron.accepts time = cron.matches minute := by
  have hminute : time.micros / microsPerMinute = minute := by
    rw [h]
    exact Nat.mul_div_cancel _ (by decide)
  have hhour : time.micros / (60 * microsPerMinute) = minute / 60 := by
    rw [Nat.mul_comm, ← Nat.div_div_eq_div_mul, hminute]
  have hday : time.micros / microsPerDay = minute / 1440 := by
    have hlength : microsPerDay = microsPerMinute * 1440 := by decide
    rw [hlength, ← Nat.div_div_eq_div_mul, hminute]
  unfold Cron.accepts Cron.matches minuteOf hourOf dayOf monthOf weekdayOf ordinalOf
  simp only [hminute, hhour, hday, (dateOf_eq _).1, (dateOf_eq _).2, Nat.mod_add_mod]

theorem minuteLater_cases (h : time.micros = minute * microsPerMinute) :
    (Scheduling.endOfTime ≤ minute + 1 ∧ minuteLater time = none) ∨
      minute + 1 < Scheduling.endOfTime ∧ ∃ next, minuteLater time = some next ∧
        next.micros = (minute + 1) * microsPerMinute ∧ next.offset = time.offset := by
  have hend : Library.endOfTime = Scheduling.endOfTime * microsPerMinute := by decide
  unfold minuteLater DateTime.addMicros
  by_cases hlt : minute + 1 < Scheduling.endOfTime
  · refine .inr ⟨hlt, ?_⟩
    have hin : 0 ≤ (time.micros : Int) + (microsPerMinute : Nat) ∧
        (time.micros : Int) + (microsPerMinute : Nat) < (Library.endOfTime : Nat) := by
      have hmul := Nat.mul_lt_mul_of_pos_right hlt (show 0 < microsPerMinute by decide)
      rw [Nat.add_mul, Nat.one_mul] at hmul
      omega
    rw [dif_pos hin]
    refine ⟨_, rfl, ?_, rfl⟩
    dsimp only
    rw [h, Nat.add_mul, Nat.one_mul]
    omega
  · refine .inl ⟨Nat.le_of_not_lt hlt, dif_neg ?_⟩
    have hmul := Nat.mul_le_mul_right microsPerMinute (Nat.le_of_not_lt hlt)
    rw [Nat.add_mul, Nat.one_mul] at hmul
    omega

-- The search over times is the search over minutes.
theorem searchFrom_eq_ok_iff (h : current.micros = minute * microsPerMinute)
    (hminute : minute < Scheduling.endOfTime) :
    cron.searchFrom tries current = .ok time ↔ ∃ found, cron.search tries minute = some found ∧
      time.micros = found * microsPerMinute ∧ time.offset = current.offset := by
  induction tries generalizing current minute with
  | zero =>
      refine iff_of_false (fun he => by cases he) ?_
      rintro ⟨found, hf, -⟩
      cases hf
  | succ tries ih =>
      have hend : ¬Scheduling.endOfTime ≤ minute := Nat.not_le_of_lt hminute
      rw [Cron.searchFrom, searchLoop, Cron.search, if_neg hend, accepts_eq h]
      by_cases hm : cron.matches minute
      · rw [if_pos hm, if_pos hm]
        constructor
        · intro he
          obtain rfl := Except.ok.inj he
          exact ⟨minute, rfl, h, rfl⟩
        · rintro ⟨found, hf, hmicros, hoffset⟩
          obtain rfl := Option.some.inj hf
          refine congrArg Except.ok ?_
          obtain ⟨micros, offset, _, _⟩ := current
          obtain ⟨micros', offset', _, _⟩ := time
          dsimp only at h hmicros hoffset
          subst hmicros hoffset
          simp only [h]
      · rw [if_neg hm, if_neg hm]
        rcases minuteLater_cases h with ⟨hlast, hadd⟩ | ⟨hnext, next, hadd, hmicros, hoffset⟩
        · rw [hadd]
          refine iff_of_false (fun he => by cases he) ?_
          rintro ⟨found, hf, -⟩
          have hin := (Cron.search_eq_some_iff.mp hf)
          omega
        · rw [hadd]
          dsimp only
          refine (ih hmicros hnext).trans ?_
          rw [hoffset]

-- Far from the end of the calendar the search gives up at its limit only.
theorem searchFrom_error (h : current.micros = minute * microsPerMinute)
    (hfar : minute + tries < Scheduling.endOfTime) {e : CronError}
    (he : cron.searchFrom tries current = .error e) : e = .valueError := by
  induction tries generalizing current minute with
  | zero => exact (Except.error.inj he).symm
  | succ tries ih =>
      rw [Cron.searchFrom, searchLoop] at he
      split at he
      · cases he
      · rcases minuteLater_cases h with ⟨hlast, hadd⟩ | ⟨hnext, next, hadd, hmicros, hoffset⟩
        · omega
        · rw [hadd] at he
          exact ih hmicros (by omega) he

end Search

section Least

variable {cron : Cron} {base time : DateTime} {expr : String}

-- A whole minute whose parts lie in the five sets; a Sunday may go by 0 or by 7.
structure Named (cron : Cron) (time : DateTime) : Prop where
  whole : time.micros % microsPerMinute = 0
  minute : cron.minutes.contains (time.micros / microsPerMinute % 60)
  hour : cron.hours.contains (time.micros / (60 * microsPerMinute) % 24)
  day : cron.days.contains (Date.fromOrdinal (time.micros / microsPerDay)).day
  month : cron.months.contains (Date.fromOrdinal (time.micros / microsPerDay)).month
  weekday : cron.daysOfWeek.contains ((time.micros / microsPerDay + 1) % 7) ∨
    (time.micros / microsPerDay + 1) % 7 = 0 ∧ cron.daysOfWeek.contains 7

-- The window: the minutes after the one in which the base time lies
def InWindow (base time : DateTime) : Prop :=
  base.micros < time.micros ∧ minuteIndex time ≤ minuteIndex base + searchWindow

structure LeastNamed (cron : Cron) (base time : DateTime) : Prop where
  offset : time.offset = base.offset
  named : Named cron time
  window : InWindow base time
  least : ∀ other : DateTime, base.micros < other.micros → other.micros < time.micros → ¬Named cron other

theorem micros_of_whole (h : time.micros % microsPerMinute = 0) :
    time.micros = minuteIndex time * microsPerMinute :=
  (Nat.div_mul_cancel (Nat.dvd_of_mod_eq_zero h)).symm

theorem named_iff : Named cron time ↔
    time.micros % microsPerMinute = 0 ∧ cron.matches (minuteIndex time) := by
  constructor
  · intro h
    refine ⟨h.whole, ?_⟩
    rw [← accepts_eq (micros_of_whole h.whole)]
    simp only [Cron.accepts, Cron.weekdayMatches, Bool.and_eq_true, Bool.or_eq_true, decide_eq_true_eq]
    exact ⟨⟨⟨⟨h.minute, h.hour⟩, h.day⟩, h.month⟩, h.weekday⟩
  · rintro ⟨h, hm⟩
    rw [← accepts_eq (micros_of_whole h)] at hm
    simp only [Cron.accepts, Cron.weekdayMatches, Bool.and_eq_true, Bool.or_eq_true,
      decide_eq_true_eq] at hm
    obtain ⟨⟨⟨⟨hminute, hhour⟩, hday⟩, hmonth⟩, hweekday⟩ := hm
    exact ⟨h, hminute, hhour, hday, hmonth, hweekday⟩

theorem minuteIndex_lt (time : DateTime) : minuteIndex time < Scheduling.endOfTime := by
  have hend : Library.endOfTime = microsPerMinute * Scheduling.endOfTime := by decide
  have hlt := time.micros_lt
  rw [hend] at hlt
  exact Nat.div_lt_of_lt_mul hlt

-- The time at which a minute starts, on the clock of another time
def atMinute (base : DateTime) {minute : Nat} (h : minute < Scheduling.endOfTime) : DateTime where
  micros := minute * microsPerMinute
  offset := base.offset
  micros_lt := by
    have hend : Library.endOfTime = Scheduling.endOfTime * microsPerMinute := by decide
    rw [hend]
    exact Nat.mul_lt_mul_of_pos_right h (by decide)
  isOffset := base.isOffset

theorem atMinute_micros (base : DateTime) {minute : Nat} (h : minute < Scheduling.endOfTime) :
    (atMinute base h).micros = minute * microsPerMinute := by
  unfold atMinute
  rfl

theorem minuteIndex_of_micros {minute : Nat} (h : time.micros = minute * microsPerMinute) :
    minuteIndex time = minute := by
  rw [minuteIndex, h]
  exact Nat.mul_div_cancel _ (by decide)

-- A whole minute is later than a time exactly when it is not the one in which this lies.
theorem micros_lt_iff {minute : Nat} (h : time.micros = minute * microsPerMinute) :
    base.micros < time.micros ↔ minuteIndex base < minute := by
  rw [h, minuteIndex, Nat.div_lt_iff_lt_mul (by decide)]

-- The call with all its arguments finds what the search over minutes finds.
theorem nextCronTime_eq_ok_iff : nextCronTime expr base = .ok time ↔
    ∃ found, getNextCronTime expr (minuteIndex base) = some found ∧
      time.micros = found * microsPerMinute ∧ time.offset = base.offset := by
  have htruncated := truncated_micros base
  have hsame : (truncated base).offset = base.offset := rfl
  unfold nextCronTime getNextCronTime
  rcases minuteLater_cases htruncated with ⟨hlast, hlater⟩ | ⟨hnext, current, hlater, hmicros, hoffset⟩
  · rw [hlater, searchAfter]
    refine iff_of_false (fun he => by cases he) ?_
    rintro ⟨found, hfound, -⟩
    obtain ⟨cron, -, hsearch⟩ := Option.bind_eq_some_iff.mp hfound
    have hin := Cron.search_eq_some_iff.mp hsearch
    omega
  · rw [hlater, searchAfter]
    generalize searchWindow = window
    cases Cron.parse expr with
    | none =>
        refine iff_of_false (fun he => by cases he) ?_
        rintro ⟨found, hfound, -⟩
        cases hfound
    | some cron =>
        dsimp only
        rw [searchFrom_eq_ok_iff hmicros hnext, hoffset, hsame, Option.bind_some]

theorem nextCronTime_eq_ok_iff_least (hparse : Cron.parse expr = some cron) :
    nextCronTime expr base = .ok time ↔ LeastNamed cron base time := by
  rw [nextCronTime_eq_ok_iff]
  constructor
  · rintro ⟨found, hfound, hmicros, hoffset⟩
    obtain ⟨cron', hparse', hfirst⟩ := getNextCronTime_eq_some_iff.mp hfound
    obtain rfl := Option.some.inj (hparse.symm.trans hparse')
    have hindex := minuteIndex_of_micros hmicros
    have hwhole : time.micros % microsPerMinute = 0 := by
      rw [hmicros]
      exact Nat.mul_mod_left _ _
    refine ⟨hoffset, named_iff.mpr ⟨hwhole, ?_⟩, ⟨(micros_lt_iff hmicros).mpr hfirst.after, ?_⟩, ?_⟩
    · rw [hindex]
      exact hfirst.named
    · rw [hindex]
      exact hfirst.within
    · intro other hlow hhigh hnamed
      obtain ⟨hother, hmatches⟩ := named_iff.mp hnamed
      have hmicros' := micros_of_whole hother
      have hbefore := hfirst.none_before (minuteIndex other) ((micros_lt_iff hmicros').mp hlow) ?_
      · rw [hbefore] at hmatches
        cases hmatches
      · rw [hmicros, hmicros'] at hhigh
        exact Nat.lt_of_mul_lt_mul_right hhigh
  · intro h
    obtain ⟨hwhole, hmatches⟩ := named_iff.mp h.named
    have hmicros := micros_of_whole hwhole
    refine ⟨minuteIndex time, getNextCronTime_eq_some_iff.mpr ⟨cron, hparse, ?_⟩, hmicros, h.offset⟩
    refine ⟨(micros_lt_iff hmicros).mp h.window.1, h.window.2, minuteIndex_lt time, hmatches, ?_⟩
    intro other hlow hhigh
    rw [← Bool.not_eq_true]
    intro hother
    have hlt := Nat.lt_trans hhigh (minuteIndex_lt time)
    have hstart := atMinute_micros base hlt
    have hwhole' : (atMinute base hlt).micros % microsPerMinute = 0 := by
      rw [hstart]
      exact Nat.mul_mod_left _ _
    refine h.least (atMinute base hlt) ((micros_lt_iff hstart).mpr hlow) ?_ (named_iff.mpr ⟨hwhole', ?_⟩)
    · rw [hmicros, hstart]
      exact Nat.mul_lt_mul_of_pos_right hhigh (by decide)
    · rw [minuteIndex_of_micros hstart]
      exact hother

-- The search succeeds exactly when some minute of its window is named.
theorem nextCronTime_isOk_iff (hparse : Cron.parse expr = some cron) :
    (∃ time, nextCronTime expr base = .ok time) ↔ ∃ time, Named cron time ∧ InWindow base time := by
  constructor
  · rintro ⟨time, htime⟩
    have hleast := (nextCronTime_eq_ok_iff_least hparse).mp htime
    exact ⟨time, hleast.named, hleast.window⟩
  · rintro ⟨time, hnamed, hlater, hwithin⟩
    obtain ⟨hwhole, hmatches⟩ := named_iff.mp hnamed
    have hmicros := micros_of_whole hwhole
    have hafter := (micros_lt_iff hmicros).mp hlater
    -- the first of the minutes of the window that are named
    have hexists : ∃ minute, minuteIndex base < minute ∧ cron.matches minute := ⟨_, hafter, hmatches⟩
    have hle : Nat.find hexists ≤ minuteIndex time := Nat.find_min' hexists ⟨hafter, hmatches⟩
    obtain ⟨hlow, hfound⟩ := Nat.find_spec hexists
    have hlt := Nat.lt_of_le_of_lt hle (minuteIndex_lt time)
    refine ⟨atMinute base hlt, nextCronTime_eq_ok_iff.mpr
      ⟨Nat.find hexists, ?_, atMinute_micros base hlt, rfl⟩⟩
    refine getNextCronTime_eq_some_iff.mpr ⟨cron, hparse, hlow, Nat.le_trans hle hwithin, hlt, hfound, ?_⟩
    intro other hafter' hbefore
    rw [← Bool.not_eq_true]
    exact fun hother => Nat.find_min hexists hbefore ⟨hafter', hother⟩

-- Far enough from the end of the calendar there is no other exception.
theorem nextCronTime_valueError (hparse : Cron.parse expr = some cron)
    (hfar : minuteIndex base + searchWindow + 1 < Scheduling.endOfTime)
    (hnone : ¬∃ time, nextCronTime expr base = .ok time) :
    nextCronTime expr base = .error .valueError := by
  cases hcall : nextCronTime expr base with
  | ok time => exact absurd ⟨time, hcall⟩ hnone
  | error e =>
      have htruncated := truncated_micros base
      unfold nextCronTime at hcall
      rcases minuteLater_cases htruncated with ⟨hlast, hlater⟩ | ⟨hnext, current, hlater, hmicros, hoffset⟩
      · omega
      · rw [hlater, searchAfter, hparse] at hcall
        generalize searchWindow = window at hcall hfar
        rw [searchFrom_error hmicros (by omega) hcall]

-- Far enough from the end of the calendar the search returns the least named minute of its window,
-- and raises ValueError where there is none.
theorem next_cron_time_least (hparse : Cron.parse expr = some cron)
    (hfar : minuteIndex base + searchWindow + 1 < Scheduling.endOfTime) :
    (∀ time, nextCronTime expr base = .ok time ↔ LeastNamed cron base time) ∧
    ((∃ time, nextCronTime expr base = .ok time) ↔ ∃ time, Named cron time ∧ InWindow base time) ∧
    ((¬∃ time, Named cron time ∧ InWindow base time) → nextCronTime expr base = .error .valueError) := by
  have hexists := @nextCronTime_isOk_iff cron base expr hparse
  refine ⟨fun time => nextCronTime_eq_ok_iff_least hparse, hexists, fun hnone => ?_⟩
  exact nextCronTime_valueError hparse hfar (hexists.not.mpr hnone)

def dailyCron : Cron where
  minutes := [⟨0, 1, 1⟩]
  hours := [⟨0, 1, 1⟩]
  days := [⟨1, 32, 1⟩]
  months := [⟨1, 13, 1⟩]
  daysOfWeek := [⟨0, 8, 1⟩]

theorem newYearMinute_lt (days : Nat) (h : days < 1000) :
    newYearMinute + days * 1440 < Scheduling.endOfTime := by
  unfold newYearMinute Scheduling.endOfTime
  omega

-- A start of a day on a clock without an offset, that of the year 2026 being the first
def midnight (days : Nat) (h : days < 1000) : DateTime :=
  ⟨(newYearMinute + days * 1440) * microsPerMinute, none, by
    have hend : Library.endOfTime = Scheduling.endOfTime * microsPerMinute := by decide
    rw [hend]
    exact Nat.mul_lt_mul_of_pos_right (newYearMinute_lt days h) (by decide), DateTime.no_isOffset⟩

theorem minuteIndex_midnight (days : Nat) (h : days < 1000) :
    minuteIndex (midnight days h) = newYearMinute + days * 1440 :=
  Nat.mul_div_cancel _ (by decide)

theorem named_midnight {days : Nat} (h : days < 1000) (hm : cron.matches (newYearMinute + days * 1440)) :
    Named cron (midnight days h) := by
  refine named_iff.mpr ⟨Nat.mul_mod_left _ _, ?_⟩
  rw [minuteIndex_midnight]
  exact hm

theorem midnight_lt {days later : Nat} (h : days < 1000) (h' : later < 1000) (hlt : days < later) :
    (midnight days h).micros < (midnight later h').micros := by
  have hminutes : newYearMinute + days * 1440 < newYearMinute + later * 1440 := by omega
  exact Nat.mul_lt_mul_of_pos_right hminutes (by decide)

theorem next_cron_time_least_daily :
    ∃ time, nextCronTime "0 0 * * *" (midnight 0 (by decide)) = .ok time := by
  have hparse : Cron.parse "0 0 * * *" = some dailyCron := rfl
  have hfar : minuteIndex (midnight 0 (by decide)) + searchWindow + 1 < Scheduling.endOfTime := by
    rw [minuteIndex_midnight]
    decide
  refine (next_cron_time_least hparse hfar).2.1.mpr ⟨midnight 1 (by decide), ?_, ?_, ?_⟩
  · exact named_midnight _ (by decide +kernel)
  · exact midnight_lt _ _ (by decide)
  · rw [minuteIndex_midnight, minuteIndex_midnight]
    decide

-- The next minute that an expression names, however far it is
structure Next (cron : Cron) (base next : DateTime) : Prop where
  named : Named cron next
  later : base.micros < next.micros
  least : ∀ other : DateTime, base.micros < other.micros → other.micros < next.micros → ¬Named cron other

theorem exists_next (h : ∃ time, Named cron time ∧ base.micros < time.micros) :
    ∃ next, Next cron base next := by
  classical
  have hmicros : ∃ micros, ∃ time : DateTime, time.micros = micros ∧ Named cron time ∧
      base.micros < time.micros := by
    obtain ⟨time, htime⟩ := h
    exact ⟨time.micros, time, rfl, htime⟩
  obtain ⟨next, hnext, hnamed, hlater⟩ := Nat.find_spec hmicros
  refine ⟨next, hnamed, hlater, fun other hlow hhigh hother => ?_⟩
  rw [hnext] at hhigh
  exact Nat.find_min hmicros hhigh ⟨other, rfl, hother, hlow⟩

-- An expression that some later minute satisfies has a next run exactly when the next such minute
-- lies in the window of the search.
theorem next_run_exists_iff (hparse : Cron.parse expr = some cron)
    (hsatisfiable : ∃ time, Named cron time ∧ base.micros < time.micros) :
    (∃ time, nextCronTime expr base = .ok time) ↔
      ∀ next, Next cron base next → minuteIndex next ≤ minuteIndex base + searchWindow := by
  rw [nextCronTime_isOk_iff hparse]
  constructor
  · rintro ⟨time, hnamed, hlater, hwithin⟩ next hnext
    have hle : next.micros ≤ time.micros := by
      by_contra hlt
      exact hnext.least time hlater (Nat.lt_of_not_le hlt) hnamed
    exact Nat.le_trans (Nat.div_le_div_right hle) hwithin
  · intro h
    obtain ⟨next, hnext⟩ := exists_next hsatisfiable
    exact ⟨next, hnext.named, hnext.later, h next hnext⟩

theorem next_run_exists_iff_daily :
    (∃ time, nextCronTime "0 0 * * *" (midnight 0 (by decide)) = .ok time) ↔
      ∀ next, Next dailyCron (midnight 0 (by decide)) next →
        minuteIndex next ≤ minuteIndex (midnight 0 (by decide)) + searchWindow := by
  have hparse : Cron.parse "0 0 * * *" = some dailyCron := rfl
  refine next_run_exists_iff hparse ⟨midnight 1 (by decide), ?_, ?_⟩
  · exact named_midnight _ (by decide +kernel)
  · exact midnight_lt _ _ (by decide)

-- The first of January comes every year, and the search of the year 2026 does not find the next one.
theorem yearly_expression_has_no_next_run : Cron.parse "0 0 1 1 *" = some yearlyCron ∧
    Named yearlyCron (midnight 365 (by decide)) ∧
    (midnight 0 (by decide)).micros < (midnight 365 (by decide)).micros ∧
    nextCronTime "0 0 1 1 *" (midnight 0 (by decide)) = .error .valueError := by
  have hparse : Cron.parse "0 0 1 1 *" = some yearlyCron := rfl
  refine ⟨hparse, named_midnight _ (by decide +kernel), midnight_lt _ _ (by decide), ?_⟩
  refine nextCronTime_valueError hparse ?_ ?_
  · rw [minuteIndex_midnight]
    decide
  · rintro ⟨time, htime⟩
    obtain ⟨found, hfound, -⟩ := nextCronTime_eq_ok_iff.mp htime
    rw [minuteIndex_midnight, Nat.zero_mul, Nat.add_zero, yearly_search_fails] at hfound
    cases hfound

end Least

end YasinCore.Scheduling
