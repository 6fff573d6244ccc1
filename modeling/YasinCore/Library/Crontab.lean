import YasinCore.Library.Text

namespace YasinCore.Library.Crontab

-- What an item of a list starts from: all values of its field, one, or a range
inductive Values
  | all
  | single (n : Nat)
  | range (first last : Nat)
  deriving DecidableEq

-- An item, with the step that a slash puts behind it
structure Item where
  values : Values
  step : Option Int
  deriving DecidableEq

abbrev Entry := List Item

structure Expression where
  minute : Entry
  hour : Entry
  day : Entry
  month : Entry
  weekday : Entry

-- What an expression looks at in a minute; a week starts on Sunday, the day 0.
structure Moment where
  minute : Nat
  hour : Nat
  day : Nat
  month : Nat
  weekday : Nat

-- The least and the greatest value of a field
structure Bounds where
  low : Nat
  high : Nat

def minuteBounds : Bounds := ⟨0, 59⟩

def hourBounds : Bounds := ⟨0, 23⟩

def dayBounds : Bounds := ⟨1, 31⟩

def monthBounds : Bounds := ⟨1, 12⟩

-- Sunday is the day 7 as well.
def weekdayBounds : Bounds := ⟨0, 7⟩

section Meaning

def Bounds.Holds (b : Bounds) (n : Nat) : Prop := b.low ≤ n ∧ n ≤ b.high

def Values.Valid (b : Bounds) : Values → Prop
  | .all => True
  | .single n => b.Holds n
  | .range first last => b.Holds first ∧ b.Holds last ∧ first ≤ last

instance (b : Bounds) (values : Values) : Decidable (values.Valid b) :=
  match values with
  | .all => isTrue trivial
  | .single _ => inferInstanceAs (Decidable (_ ∧ _))
  | .range _ _ => inferInstanceAs (Decidable ((_ ∧ _) ∧ (_ ∧ _) ∧ _))

def Item.Valid (b : Bounds) (item : Item) : Prop := item.values.Valid b ∧ ∀ step ∈ item.step, 0 < step

def Entry.Valid (b : Bounds) (entry : Entry) : Prop := ∀ item ∈ entry, Item.Valid b item

instance (b : Bounds) (item : Item) : Decidable (Item.Valid b item) :=
  inferInstanceAs (Decidable (_ ∧ _))

instance (b : Bounds) (entry : Entry) : Decidable (Entry.Valid b entry) :=
  inferInstanceAs (Decidable (∀ item ∈ entry, Item.Valid b item))

structure Expression.Valid (e : Expression) : Prop where
  minute : Entry.Valid minuteBounds e.minute
  hour : Entry.Valid hourBounds e.hour
  day : Entry.Valid dayBounds e.day
  month : Entry.Valid monthBounds e.month
  weekday : Entry.Valid weekdayBounds e.weekday

-- Where the values of an item begin and end; a single one with a step goes on to the last.
def Item.ends (b : Bounds) (item : Item) : Nat × Nat :=
  match item.values, item.step with
  | .all, _ => (b.low, b.high)
  | .single n, none => (n, n)
  | .single n, some _ => (n, b.high)
  | .range first last, _ => (first, last)

def Item.Names (b : Bounds) (item : Item) (n : Nat) : Prop :=
  (item.ends b).1 ≤ n ∧ n ≤ (item.ends b).2 ∧ item.step.getD 1 ∣ (n : Int) - (item.ends b).1

def Entry.Names (b : Bounds) (entry : Entry) (n : Nat) : Prop := ∃ item ∈ entry, Item.Names b item n

def Entry.NamesWeekday (entry : Entry) (n : Nat) : Prop :=
  Entry.Names weekdayBounds entry n ∨ n = 0 ∧ Entry.Names weekdayBounds entry 7

-- The field is not just a star.
def Entry.Restricted (entry : Entry) : Prop := entry ≠ [⟨.all, none⟩]

instance (b : Bounds) (item : Item) (n : Nat) : Decidable (Item.Names b item n) :=
  inferInstanceAs (Decidable (_ ∧ _))

instance (b : Bounds) (entry : Entry) (n : Nat) : Decidable (Entry.Names b entry n) :=
  inferInstanceAs (Decidable (∃ item ∈ entry, Item.Names b item n))

instance (entry : Entry) (n : Nat) : Decidable (Entry.NamesWeekday entry n) :=
  inferInstanceAs (Decidable (_ ∨ _))

instance (entry : Entry) : Decidable (Entry.Restricted entry) := inferInstanceAs (Decidable (_ ≠ _))

-- Where both fields of the day are restricted, one of them is enough.
def Expression.NamesDate (e : Expression) (m : Moment) : Prop :=
  if Entry.Restricted e.day ∧ Entry.Restricted e.weekday then
    Entry.Names dayBounds e.day m.day ∨ Entry.NamesWeekday e.weekday m.weekday
  else Entry.Names dayBounds e.day m.day ∧ Entry.NamesWeekday e.weekday m.weekday

def Expression.Accepts (e : Expression) (m : Moment) : Prop :=
  Entry.Names minuteBounds e.minute m.minute ∧ Entry.Names hourBounds e.hour m.hour ∧
    Entry.Names monthBounds e.month m.month ∧ e.NamesDate m

instance (e : Expression) (m : Moment) : Decidable (e.NamesDate m) :=
  inferInstanceAs (Decidable (ite _ _ _))

instance (e : Expression) (m : Moment) : Decidable (e.Accepts m) :=
  inferInstanceAs (Decidable (_ ∧ _))

end Meaning

section Texts

-- A number in decimal digits; zeros may lead.
structure IsNumeral (n : Nat) (text : String) : Prop where
  nonempty : text.toList ≠ []
  decimal : ∀ c ∈ text.toList, c.isDigit
  value : Nat.ofDigitChars 10 text.toList 0 = n

inductive Values.WrittenAs : Values → String → Prop
  | all : Values.WrittenAs .all "*"
  | single {n : Nat} {text : String} (h : IsNumeral n text) : Values.WrittenAs (.single n) text
  | range {first last : Nat} {text text' : String} (h : IsNumeral first text) (h' : IsNumeral last text') :
      Values.WrittenAs (.range first last) (text ++ "-" ++ text')

inductive Item.WrittenAs : Item → String → Prop
  | plain {values : Values} {text : String} (h : values.WrittenAs text) :
      Item.WrittenAs ⟨values, none⟩ text
  | stepped {values : Values} {n : Nat} {text step : String} (h : values.WrittenAs text)
      (hn : IsNumeral n step) : Item.WrittenAs ⟨values, some n⟩ (text ++ "/" ++ step)
  | lowered {values : Values} {n : Nat} {text step : String} (h : values.WrittenAs text)
      (hn : IsNumeral n step) : Item.WrittenAs ⟨values, some (-n)⟩ (text ++ "/" ++ ("-" ++ step))

inductive Entry.WrittenAs (entry : Entry) : String → Prop
  | intro {pieces : List String} (nonempty : pieces ≠ [])
      (items : List.Forall₂ Item.WrittenAs entry pieces) :
      Entry.WrittenAs entry (",".intercalate pieces)

-- Five entries between white space
inductive Expression.WrittenAs (e : Expression) (expr : String) : Prop
  | intro {minute hour day month weekday : String}
      (words : Text.words expr = [minute, hour, day, month, weekday])
      (minute : Entry.WrittenAs e.minute minute) (hour : Entry.WrittenAs e.hour hour)
      (day : Entry.WrittenAs e.day day) (month : Entry.WrittenAs e.month month)
      (weekday : Entry.WrittenAs e.weekday weekday) : Expression.WrittenAs e expr

end Texts

section Characters

variable {n : Nat} {text : String} {c : Char} {values : Values} {item : Item}

theorem IsNumeral.int? (h : IsNumeral n text) : Text.int? text = some n := by
  rw [Text.int?_of_isDigit h.nonempty h.decimal, h.value]
  rfl

theorem IsNumeral.int?_neg (h : IsNumeral n text) : Text.int? ("-" ++ text) = some (-(n : Int)) := by
  have hstrip : Text.strip ("-" ++ text) = "-" ++ text := by
    refine Text.strip_eq_self fun c hc => ?_
    rw [String.toList_append] at hc
    rcases List.mem_append.mp hc with hc | hc
    · obtain rfl := List.mem_singleton.mp hc
      decide
    · exact Text.not_isspace_of_isDigit (h.decimal c hc)
  have hlist : ("-" ++ text).toList = '-' :: text.toList := String.toList_append
  rw [Text.int?, hstrip, hlist]
  simp only
  rw [Text.nat?_of_isDigit h.nonempty h.decimal, h.value]
  rfl

theorem IsNumeral.notMem {sep : Char} (h : IsNumeral n text) (hsep : sep.isDigit = false) :
    sep ∉ text.toList := by
  intro hc
  rw [h.decimal sep hc] at hsep
  cases hsep

-- What the texts of values and of items are made of
theorem Values.WrittenAs.mem (h : values.WrittenAs text) (hc : c ∈ text.toList) :
    c.isDigit ∨ c = '*' ∨ c = '-' := by
  cases h with
  | all => exact .inr (.inl (List.mem_singleton.mp hc))
  | single h => exact .inl (h.decimal c hc)
  | range h h' =>
      rw [String.toList_append, String.toList_append] at hc
      rcases List.mem_append.mp hc with hc | hc
      · rcases List.mem_append.mp hc with hc | hc
        · exact .inl (h.decimal c hc)
        · exact .inr (.inr (List.mem_singleton.mp hc))
      · exact .inl (h'.decimal c hc)

theorem Item.WrittenAs.comma_notMem (h : item.WrittenAs text) : ',' ∉ text.toList := by
  have hvalues {values : Values} {text : String} (h : values.WrittenAs text) : ',' ∉ text.toList := by
    intro hc
    exact absurd (h.mem hc) (by decide)
  cases h with
  | plain h => exact hvalues h
  | stepped h hn => simpa using ⟨hvalues h, hn.notMem (by decide)⟩
  | lowered h hn => simpa using ⟨hvalues h, hn.notMem (by decide)⟩

theorem Values.WrittenAs.slash_notMem (h : values.WrittenAs text) : '/' ∉ text.toList := by
  intro hc
  exact absurd (h.mem hc) (by decide)

end Characters

end YasinCore.Library.Crontab
