import YasinCore.Library.Crontab
import YasinCore.Scheduling.CronSearch

namespace YasinCore.Scheduling

open YasinCore.Library YasinCore.Library.Crontab

-- The ends that parse_cron_field takes for an item, whatever its step
def readEnds (b : Bounds) : Values → Int × Int
  | .all => (b.low, b.high)
  | .single n => (n, n)
  | .range first last => (first, last)

def itemSpan (b : Bounds) (item : Item) : Span :=
  ⟨(readEnds b item.values).1, (readEnds b item.values).2 + 1, item.step.getD 1⟩

def entryField (b : Bounds) (entry : Entry) : Field := entry.map (itemSpan b)

def expressionCron (e : Expression) : Cron where
  minutes := entryField minuteBounds e.minute
  hours := entryField hourBounds e.hour
  days := entryField dayBounds e.day
  months := entryField monthBounds e.month
  daysOfWeek := entryField weekdayBounds e.weekday

-- The step on which range raises
def ZeroStep (entry : Entry) : Prop := ∃ item ∈ entry, item.step = some 0

instance (entry : Entry) : Decidable (ZeroStep entry) :=
  inferInstanceAs (Decidable (∃ item ∈ entry, item.step = some 0))

def HasZeroStep (e : Expression) : Prop :=
  ZeroStep e.minute ∨ ZeroStep e.hour ∨ ZeroStep e.day ∨ ZeroStep e.month ∨ ZeroStep e.weekday

instance (e : Expression) : Decidable (HasZeroStep e) := inferInstanceAs (Decidable (_ ∨ _))

section Reading

variable {b : Bounds} {values : Values} {item : Item} {entry : Entry} {e : Expression} {text expr : String}

theorem ne_star_of_isNumeral {n : Nat} (h : IsNumeral n text) (rest : String) : text ++ rest ≠ "*" := by
  intro he
  obtain ⟨c, cs, hcons⟩ := List.exists_cons_of_ne_nil h.nonempty
  have hlist : c :: cs ++ rest.toList = ['*'] := by
    rw [← hcons, ← String.toList_append, he]
    rfl
  have hdigit := h.decimal c (by simp [hcons])
  rw [(List.cons.inj hlist).1] at hdigit
  cases hdigit

theorem parseBounds_written (h : values.WrittenAs text) :
    parseBounds text b.low b.high = some (readEnds b values) := by
  cases h with
  | all => rfl
  | single h =>
      have hne : text ≠ "*" := by simpa using ne_star_of_isNumeral h ""
      rw [parseBounds, if_neg hne, Text.split_of_notMem (h.notMem (by decide))]
      simp only [h.int?]
      rfl
  | range h h' =>
      rename_i first last start stop
      have hne : start ++ "-" ++ stop ≠ "*" := by
        rw [String.append_assoc]
        exact ne_star_of_isNumeral h _
      rw [parseBounds, if_neg hne]
      have hsplit : Text.split '-' (start ++ "-" ++ stop) = [start, stop] :=
        Text.split_pair (h.notMem (by decide)) (h'.notMem (by decide))
      rw [hsplit]
      simp only [h.int?, h'.int?]
      rfl

theorem parsePart_one {part : String} {low high start stop : Int} (h : Text.split '/' text = [part])
    (hb : parseBounds part low high = some (start, stop)) :
    parsePart low high text = some ⟨start, stop + 1, 1⟩ := by
  rw [parsePart, h]
  simp only [Option.bind_eq_bind, Option.bind_some, hb]
  rfl

theorem parsePart_two {part step : String} {low high start stop stride : Int}
    (h : Text.split '/' text = [part, step]) (hs : Text.int? step = some stride)
    (hb : parseBounds part low high = some (start, stop)) :
    parsePart low high text = if stride = 0 then none else some ⟨start, stop + 1, stride⟩ := by
  rw [parsePart, h]
  simp only [hs, Option.map_some, Option.bind_eq_bind, Option.bind_some, hb]
  by_cases hz : stride = 0
  · rw [if_pos hz]
    simp [hz, guard]
  · rw [if_neg hz]
    simp [hz, guard]

theorem parsePart_written (h : item.WrittenAs text) : parsePart b.low b.high text =
    if item.step = some 0 then none else some (itemSpan b item) := by
  cases h with
  | plain h => exact parsePart_one (Text.split_of_notMem h.slash_notMem) (parseBounds_written h)
  | @stepped values n start step h hn =>
      have hsplit : Text.split '/' (start ++ "/" ++ step) = [start, step] :=
        Text.split_pair h.slash_notMem (hn.notMem (by decide))
      rw [parsePart_two hsplit hn.int? (parseBounds_written h)]
      exact if_congr (Option.some_inj (a := (n : Int))).symm rfl rfl
  | @lowered values n start step h hn =>
      have hslash : '/' ∉ ("-" ++ step).toList := by
        simpa using hn.notMem (by decide)
      have hsplit : Text.split '/' (start ++ "/" ++ ("-" ++ step)) = [start, "-" ++ step] :=
        Text.split_pair h.slash_notMem hslash
      rw [parsePart_two hsplit hn.int?_neg (parseBounds_written h)]
      exact if_congr (Option.some_inj (a := -(n : Int))).symm rfl rfl

-- The branch for a star alone does what the loop over the pieces would do.
theorem parseCronField_eq (field : String) (low high : Int) :
    parseCronField field low high = (Text.split ',' field).mapM (parsePart low high) := by
  rw [parseCronField]
  split
  · next h =>
      rw [h]
      rfl
  · rfl

theorem mapM_parsePart_written {pieces : List String} (h : List.Forall₂ Item.WrittenAs entry pieces) :
    pieces.mapM (parsePart b.low b.high) =
      if ZeroStep entry then none else some (entryField b entry) := by
  induction h with
  | nil => rfl
  | @cons item piece entry pieces hitem _ ih =>
      rw [List.mapM_cons, parsePart_written hitem, ih]
      have hcons : ZeroStep (item :: entry) ↔ item.step = some 0 ∨ ZeroStep entry := by
        simp [ZeroStep]
      rw [if_congr hcons rfl rfl]
      by_cases hzero : item.step = some 0
      · simp [hzero]
      · by_cases hrest : ZeroStep entry
        · simp [hzero, hrest]
        · simp [hzero, hrest, entryField]

theorem pieces_comma_notMem {pieces : List String} (h : List.Forall₂ Item.WrittenAs entry pieces) :
    ∀ piece ∈ pieces, ',' ∉ piece.toList := by
  induction h with
  | nil => exact fun piece hp => absurd hp List.not_mem_nil
  | cons hitem _ ih =>
      intro piece hp
      rcases List.mem_cons.mp hp with rfl | hp
      · exact hitem.comma_notMem
      · exact ih piece hp

theorem parseCronField_written (h : Entry.WrittenAs entry text) : parseCronField text b.low b.high =
    if ZeroStep entry then none else some (entryField b entry) := by
  obtain ⟨hne, hitems⟩ := h
  rename_i pieces
  have hsplit : Text.split ',' (",".intercalate pieces) = pieces :=
    Text.split_intercalate (pieces_comma_notMem hitems) hne
  rw [parseCronField_eq, hsplit, mapM_parsePart_written hitems]

theorem parse_written (h : e.WrittenAs expr) : Cron.parse expr =
    if HasZeroStep e then none else some (expressionCron e) := by
  obtain ⟨hwords, hminute, hhour, hday, hmonth, hweekday⟩ := h
  rename_i minute hour day month weekday
  have hminute : parseCronField minute 0 59 = _ := parseCronField_written (b := minuteBounds) hminute
  have hhour : parseCronField hour 0 23 = _ := parseCronField_written (b := hourBounds) hhour
  have hday : parseCronField day 1 31 = _ := parseCronField_written (b := dayBounds) hday
  have hmonth : parseCronField month 1 12 = _ := parseCronField_written (b := monthBounds) hmonth
  have hweekday : parseCronField weekday 0 7 = _ := parseCronField_written (b := weekdayBounds) hweekday
  rw [Cron.parse, hwords]
  simp only [hminute, hhour, hday, hmonth, hweekday, HasZeroStep]
  by_cases hm : ZeroStep e.minute
  · simp [hm]
  by_cases hh : ZeroStep e.hour
  · simp [hm, hh]
  by_cases hd : ZeroStep e.day
  · simp [hm, hh, hd]
  by_cases hmo : ZeroStep e.month
  · simp [hm, hh, hd, hmo]
  by_cases hw : ZeroStep e.weekday
  · simp [hm, hh, hd, hmo, hw]
  · simp [hm, hh, hd, hmo, hw, expressionCron]

end Reading

-- An item that starts from a single value has not gone on from it.
def AtStart (n : Nat) : Values → Prop
  | .single single => n = single
  | .all => True
  | .range _ _ => True

instance (n : Nat) (values : Values) : Decidable (AtStart n values) :=
  match values with
  | .single _ => inferInstanceAs (Decidable (_ = _))
  | .all => isTrue trivial
  | .range _ _ => isTrue trivial

-- The item names the value, and not only by going on.
def ListsItem (b : Bounds) (item : Item) (n : Nat) : Prop := Item.Names b item n ∧ AtStart n item.values

def Lists (b : Bounds) (entry : Entry) (n : Nat) : Prop := ∃ item ∈ entry, ListsItem b item n

instance (b : Bounds) (item : Item) (n : Nat) : Decidable (ListsItem b item n) :=
  inferInstanceAs (Decidable (_ ∧ _))

instance (b : Bounds) (entry : Entry) (n : Nat) : Decidable (Lists b entry n) :=
  inferInstanceAs (Decidable (∃ item ∈ entry, ListsItem b item n))

-- Each of the five fields lists its part of the minute, both fields of the day included.
structure ListsEach (e : Expression) (m : Moment) : Prop where
  minute : Lists minuteBounds e.minute m.minute
  hour : Lists hourBounds e.hour m.hour
  day : Lists dayBounds e.day m.day
  month : Lists monthBounds e.month m.month
  weekday : Lists weekdayBounds e.weekday m.weekday ∨ m.weekday = 0 ∧ Lists weekdayBounds e.weekday 7

def momentOf (time : DateTime) : Moment where
  minute := time.micros / microsPerMinute % 60
  hour := time.micros / (60 * microsPerMinute) % 24
  day := (Date.fromOrdinal (time.micros / microsPerDay)).day
  month := (Date.fromOrdinal (time.micros / microsPerDay)).month
  weekday := (time.micros / microsPerDay + 1) % 7

-- The match condition of the search, with the sets that the fields were parsed to
def MatchCondition (expr : String) (time : DateTime) : Prop :=
  ∃ cron, Cron.parse expr = some cron ∧ cron.accepts time

section Meaning

variable {b : Bounds} {item : Item} {entry : Entry} {e : Expression} {m : Moment} {n : Nat}
  {time base : DateTime} {cron : Cron} {expr : String}

theorem contains_of_pos {span : Span} (h : 0 < span.stride) : span.contains n ↔
    span.start ≤ n ∧ (n : Int) < span.stop ∧ span.stride ∣ (n : Int) - span.start := by
  rw [Span.contains, if_pos h, decide_eq_true_eq, Int.dvd_iff_emod_eq_zero]

theorem between_iff {low high : Nat} {p : Prop} :
    (low : Int) ≤ n ∧ (n : Int) < high + 1 ∧ p ↔ low ≤ n ∧ n ≤ high ∧ p := by
  rw [Int.lt_add_one_iff, Int.ofNat_le, Int.ofNat_le]

-- What parse_cron_field reads of a valid item is what the item names, but for the open end.
theorem itemSpan_contains_iff (h : Item.Valid b item) :
    (itemSpan b item).contains n ↔ ListsItem b item n := by
  obtain ⟨values, step⟩ := item
  obtain ⟨hvalues, hstep⟩ := h
  have hpos : 0 < (itemSpan b ⟨values, step⟩).stride := by
    cases step with
    | none => exact Int.one_pos
    | some stride => exact hstep stride rfl
  rw [contains_of_pos hpos]
  cases values with
  | all => exact between_iff.trans (and_iff_left trivial).symm
  | range first last => exact between_iff.trans (and_iff_left trivial).symm
  | single single =>
      refine between_iff.trans ⟨fun ⟨hlow, hhigh, _⟩ => ?_, fun ⟨_, hsame⟩ => ?_⟩
      · obtain rfl := Nat.le_antisymm hhigh hlow
        refine ⟨?_, rfl⟩
        cases step with
        | none => exact ⟨le_rfl, le_rfl, by simp⟩
        | some stride => exact ⟨le_rfl, hvalues.2, by simp [Item.ends]⟩
      · obtain rfl : n = single := hsame
        exact ⟨le_rfl, le_rfl, by simp [itemSpan, readEnds]⟩

theorem entryField_contains_iff (h : Entry.Valid b entry) :
    (entryField b entry).contains n ↔ Lists b entry n := by
  rw [Field.contains, List.any_eq_true, entryField]
  constructor
  · rintro ⟨span, hs, hc⟩
    obtain ⟨item, hitem, rfl⟩ := List.mem_map.mp hs
    exact ⟨item, hitem, (itemSpan_contains_iff (h item hitem)).mp hc⟩
  · rintro ⟨item, hitem, hl⟩
    exact ⟨itemSpan b item, List.mem_map_of_mem hitem, (itemSpan_contains_iff (h item hitem)).mpr hl⟩

theorem accepts_iff (h : e.Valid) : (expressionCron e).accepts time ↔ ListsEach e (momentOf time) := by
  simp only [Cron.accepts, Cron.weekdayMatches, Bool.and_eq_true, Bool.or_eq_true, decide_eq_true_eq]
  have hminute {n : Nat} := entryField_contains_iff (n := n) h.minute
  have hhour {n : Nat} := entryField_contains_iff (n := n) h.hour
  have hday {n : Nat} := entryField_contains_iff (n := n) h.day
  have hmonth {n : Nat} := entryField_contains_iff (n := n) h.month
  have hweekday {n : Nat} := entryField_contains_iff (n := n) h.weekday
  simp only [expressionCron, hminute, hhour, hday, hmonth, hweekday]
  constructor
  · rintro ⟨⟨⟨⟨hm, hh⟩, hd⟩, hmo⟩, hw⟩
    exact ⟨hm, hh, hd, hmo, hw⟩
  · intro hl
    exact ⟨⟨⟨⟨hl.minute, hl.hour⟩, hl.day⟩, hl.month⟩, hl.weekday⟩

theorem Lists.names (h : Lists b entry n) : Entry.Names b entry n := by
  obtain ⟨item, hitem, hnames, -⟩ := h
  exact ⟨item, hitem, hnames⟩

theorem ListsEach.accepts (h : ListsEach e m) : e.Accepts m := by
  have hweekday : Entry.NamesWeekday e.weekday m.weekday :=
    h.weekday.imp Lists.names (And.imp_right Lists.names)
  refine ⟨h.minute.names, h.hour.names, h.month.names, ?_⟩
  rw [Expression.NamesDate]
  split
  · exact .inl h.day.names
  · exact ⟨h.day.names, hweekday⟩

theorem no_zeroStep (h : e.Valid) : ¬HasZeroStep e := by
  have hentry {b : Bounds} {entry : Entry} (h : Entry.Valid b entry) : ¬ZeroStep entry := by
    rintro ⟨item, hitem, hzero⟩
    exact absurd ((h item hitem).2 0 hzero) (lt_irrefl _)
  rintro (hz | hz | hz | hz | hz)
  · exact hentry h.minute hz
  · exact hentry h.hour hz
  · exact hentry h.day hz
  · exact hentry h.month hz
  · exact hentry h.weekday hz

theorem matchCondition_iff (hw : e.WrittenAs expr) (h : e.Valid) :
    MatchCondition expr time ↔ ListsEach e (momentOf time) := by
  have hparse := parse_written hw
  rw [if_neg (no_zeroStep h)] at hparse
  rw [← accepts_iff h, MatchCondition, hparse]
  simp

end Meaning

section Rejection

variable {cron : Cron} {current base : DateTime} {tries minute : Nat} {expr : String} {e : Expression}

-- A search that gives up has not met the end of the calendar.
theorem searchFrom_valueError (h : current.micros = minute * microsPerMinute)
    (hminute : minute < Scheduling.endOfTime) (he : cron.searchFrom tries current = .error .valueError) :
    minute + tries < Scheduling.endOfTime := by
  induction tries generalizing current minute with
  | zero => exact hminute
  | succ tries ih =>
      rw [Cron.searchFrom, searchLoop] at he
      split at he
      · cases he
      · rcases minuteLater_cases h with ⟨-, hadd⟩ | ⟨hnext, next, hadd, hmicros, -⟩
        · rw [hadd] at he
          cases he
        · rw [hadd] at he
          have hlt := ih hmicros hnext he
          omega

-- The call raises ValueError for a step of zero, or when its sets name nothing in the window.
def Rejects (e : Expression) (base : DateTime) : Prop :=
  minuteIndex base + 1 < Scheduling.endOfTime ∧
    (HasZeroStep e ∨ minuteIndex base + searchWindow + 1 < Scheduling.endOfTime ∧
      ¬∃ time, Named (expressionCron e) time ∧ InWindow base time)

theorem nextCronTime_valueError_iff (hw : e.WrittenAs expr) :
    nextCronTime expr base = .error .valueError ↔ Rejects e base := by
  have hparse := parse_written hw
  have hcases := minuteLater_cases (truncated_micros base)
  by_cases hzero : HasZeroStep e
  · rw [if_pos hzero] at hparse
    unfold nextCronTime
    rcases hcases with ⟨hlast, hlater⟩ | ⟨hnext, current, hlater, -⟩
    · rw [hlater, searchAfter]
      refine iff_of_false (fun he => by cases he) fun hr => ?_
      have hnext := hr.1
      omega
    · rw [hlater, searchAfter, hparse]
      exact iff_of_true rfl ⟨hnext, .inl hzero⟩
  · rw [if_neg hzero] at hparse
    have hok := @nextCronTime_isOk_iff (expressionCron e) base expr hparse
    constructor
    · intro he
      have hnone : ¬∃ time, nextCronTime expr base = .ok time := by
        rintro ⟨time, htime⟩
        rw [he] at htime
        cases htime
      unfold nextCronTime at he
      rcases hcases with ⟨-, hlater⟩ | ⟨hnext, current, hlater, hmicros, -⟩
      · rw [hlater, searchAfter] at he
        cases he
      · refine ⟨hnext, .inr ⟨?_, hok.not.mp hnone⟩⟩
        rw [hlater, searchAfter, hparse] at he
        generalize searchWindow = window at he ⊢
        have hfar := searchFrom_valueError hmicros hnext he
        omega
    · rintro ⟨-, hz | ⟨hfar, hnone⟩⟩
      · exact absurd hz hzero
      · exact nextCronTime_valueError hparse hfar (hok.not.mpr hnone)

end Rejection

-- An expression means what it means in a crontab exactly when, if it is not valid, the call rejects it
-- by accident, and if it is valid and the minute is accepted, then every field lists it by itself.
theorem crontab_meaning_iff {e : Expression} {expr : String} (hw : e.WrittenAs expr)
    (base time : DateTime) :
    ((¬e.Valid → nextCronTime expr base = .error .valueError) ∧
        (e.Valid → (MatchCondition expr time ↔ e.Accepts (momentOf time)))) ↔
      (¬e.Valid → Rejects e base) ∧
        (e.Valid → e.Accepts (momentOf time) → ListsEach e (momentOf time)) := by
  rw [nextCronTime_valueError_iff hw]
  refine and_congr_right fun _ => imp_congr_right fun hvalid => ?_
  rw [matchCondition_iff hw hvalid]
  exact ⟨fun h => h.mpr, fun h => ⟨ListsEach.accepts, h⟩⟩

section Sample

def star : Entry := [⟨.all, none⟩]

theorem star_written : Entry.WrittenAs star "*" :=
  @Entry.WrittenAs.intro star ["*"] (List.cons_ne_nil _ _) (.cons (.plain .all) .nil)

theorem numeral_written {n : Nat} {text : String} (h : IsNumeral n text) :
    Entry.WrittenAs [⟨.single n, none⟩] text :=
  @Entry.WrittenAs.intro _ [text] (List.cons_ne_nil _ _) (.cons (.plain (.single h)) .nil)

-- At the full hour and at a minute that does not exist
def outOfRange : Expression := ⟨[⟨.single 0, none⟩, ⟨.single 60, none⟩], star, star, star, star⟩

-- Every other day from the first on, at midnight
def everyOtherDay : Expression :=
  ⟨[⟨.single 0, none⟩], [⟨.single 0, none⟩], [⟨.single 1, some 2⟩], star, star⟩

-- On the first and on Mondays, at midnight
def firstOrMonday : Expression :=
  ⟨[⟨.single 0, none⟩], [⟨.single 0, none⟩], [⟨.single 1, none⟩], star, [⟨.single 1, none⟩]⟩

-- On the first at midnight
def monthly : Expression := ⟨[⟨.single 0, none⟩], [⟨.single 0, none⟩], [⟨.single 1, none⟩], star, star⟩

theorem zero_numeral : IsNumeral 0 "0" := ⟨by decide, List.all_eq_true.mp rfl, by decide⟩

theorem one_numeral : IsNumeral 1 "1" := ⟨by decide, List.all_eq_true.mp rfl, by decide⟩

theorem outOfRange_written : outOfRange.WrittenAs "0,60 * * * *" := by
  have hsixty : IsNumeral 60 "60" := ⟨by decide, List.all_eq_true.mp rfl, by decide⟩
  have hminute : Entry.WrittenAs outOfRange.minute "0,60" :=
    @Entry.WrittenAs.intro _ ["0", "60"] (List.cons_ne_nil _ _)
      (.cons (.plain (.single zero_numeral)) (.cons (.plain (.single hsixty)) .nil))
  exact .intro (by decide) hminute star_written star_written star_written star_written

theorem everyOtherDay_written : everyOtherDay.WrittenAs "0 0 1/2 * *" := by
  have htwo : IsNumeral 2 "2" := ⟨by decide, List.all_eq_true.mp rfl, by decide⟩
  have hday : Entry.WrittenAs everyOtherDay.day "1/2" :=
    @Entry.WrittenAs.intro _ ["1/2"] (List.cons_ne_nil _ _)
      (.cons (.stepped (.single one_numeral) htwo) .nil)
  exact .intro (by decide) (numeral_written zero_numeral) (numeral_written zero_numeral) hday star_written
    star_written

theorem firstOrMonday_written : firstOrMonday.WrittenAs "0 0 1 * 1" :=
  .intro (by decide) (numeral_written zero_numeral) (numeral_written zero_numeral)
    (numeral_written one_numeral) star_written (numeral_written one_numeral)

theorem monthly_written : monthly.WrittenAs "0 0 1 * *" :=
  .intro (by decide) (numeral_written zero_numeral) (numeral_written zero_numeral)
    (numeral_written one_numeral) star_written star_written

theorem crontab_meaning_iff_monthly : MatchCondition "0 0 1 * *" (midnight 0 (by decide)) ↔
    monthly.Accepts (momentOf (midnight 0 (by decide))) := by
  have hvalid : monthly.Valid := ⟨by decide, by decide, by decide, by decide, by decide⟩
  have hmeaning := crontab_meaning_iff monthly_written (midnight 0 (by decide)) (midnight 0 (by decide))
  refine (hmeaning.mpr ⟨fun h => absurd hvalid h, fun _ _ => ?_⟩).2 hvalid
  exact ⟨by decide +kernel, by decide +kernel, by decide +kernel, by decide +kernel,
    .inl (by decide +kernel)⟩

-- A minute that does not exist is accepted beside one that does; a single value with a step does not
-- go on; and of two restricted fields of the day both are needed.
theorem crontab_deviations :
    (outOfRange.WrittenAs "0,60 * * * *" ∧ ¬outOfRange.Valid ∧
      ∃ time, nextCronTime "0,60 * * * *" (midnight 0 (by decide)) = .ok time) ∧
    (everyOtherDay.WrittenAs "0 0 1/2 * *" ∧ everyOtherDay.Valid ∧
      everyOtherDay.Accepts (momentOf (midnight 2 (by decide))) ∧
      ¬MatchCondition "0 0 1/2 * *" (midnight 2 (by decide))) ∧
    (firstOrMonday.WrittenAs "0 0 1 * 1" ∧ firstOrMonday.Valid ∧
      firstOrMonday.Accepts (momentOf (midnight 4 (by decide))) ∧
      ¬MatchCondition "0 0 1 * 1" (midnight 4 (by decide))) := by
  refine ⟨⟨outOfRange_written, fun h => absurd h.minute (by decide), ?_⟩,
    ⟨everyOtherDay_written, ?_, ?_, ?_⟩, ⟨firstOrMonday_written, ?_, ?_, ?_⟩⟩
  · have hparse : Cron.parse "0,60 * * * *" = some (expressionCron outOfRange) := by
      rw [parse_written outOfRange_written]
      rfl
    refine (nextCronTime_isOk_iff hparse).mpr ⟨midnight 1 (by decide), ?_, midnight_lt _ _ (by decide), ?_⟩
    · exact named_midnight _ (by decide +kernel)
    · rw [minuteIndex_midnight, minuteIndex_midnight]
      decide
  · exact ⟨by decide, by decide, by decide, by decide, by decide⟩
  · decide +kernel
  · rintro ⟨cron, hparse, haccepts⟩
    rw [parse_written everyOtherDay_written, if_neg (by decide)] at hparse
    obtain rfl := Option.some.inj hparse
    exact absurd haccepts (by decide +kernel)
  · exact ⟨by decide, by decide, by decide, by decide, by decide⟩
  · decide +kernel
  · rintro ⟨cron, hparse, haccepts⟩
    rw [parse_written firstOrMonday_written, if_neg (by decide)] at hparse
    obtain rfl := Option.some.inj hparse
    exact absurd haccepts (by decide +kernel)

end Sample

end YasinCore.Scheduling
