import SqlPaging.Calendar.DateTime

/-!
# SqlPaging — days and their numbers

Day numbers go up by one from day to day: a year is as long as its months, and the
first day of a year has the number after that of the last day of the year before. So a
later date has a greater number, and a date is found again by its number.

The year of a number is guessed from the average length of a year. The guess is wrong
by one year at most (`guess_bounds`), which is what `yearOfDay` corrects.

Main results:

* `dayNumber_lt_iff` — the order of dates is that of their numbers.
* `ofDayNumber?_dayNumber` — a date is found again by its number.
* `dayNumber_bounds` — the numbers of the calendar.
-/

namespace SqlPaging.Calendar

namespace Date

/-- The number of days of a year. -/
def daysInYear (year : Int) : Nat := if isLeap year then 366 else 365

/-! ## Years -/

/-- Leap years come every four years, but for full centuries, and every four of those. -/
theorem daysBeforeYear_eq (year : Int) : daysBeforeYear year =
    365 * year + (year - 1) / 4 - (year - 1) / 100 + (year - 1) / 400 + 1 := by
  simp only [daysBeforeYear, Int.fdiv_eq_ediv_of_nonneg _ (by decide : (0 : Int) ≤ 4),
    Int.fdiv_eq_ediv_of_nonneg _ (by decide : (0 : Int) ≤ 100),
    Int.fdiv_eq_ediv_of_nonneg _ (by decide : (0 : Int) ≤ 400)]

theorem isLeap_iff (year : Int) :
    isLeap year = true ↔ year % 4 = 0 ∧ (year % 100 ≠ 0 ∨ year % 400 = 0) := by
  simp [isLeap]

/-- A year begins as many days after the one before it as that one has. -/
theorem daysBeforeYear_succ (year : Int) :
    daysBeforeYear (year + 1) = daysBeforeYear year + daysInYear year := by
  have hleap := isLeap_iff year
  rw [daysBeforeYear_eq, daysBeforeYear_eq, daysInYear]
  -- one of the three quotients grows by one in a leap year only, where the others cancel
  split
  · next h =>
    have := hleap.mp h
    omega
  · next h =>
    have : ¬(year % 4 = 0 ∧ (year % 100 ≠ 0 ∨ year % 400 = 0)) := fun hc => h (hleap.mpr hc)
    omega

theorem daysBeforeYear_mono {y z : Int} (h : y ≤ z) : daysBeforeYear y ≤ daysBeforeYear z := by
  rw [daysBeforeYear_eq, daysBeforeYear_eq]
  omega

/-! ## Months -/

theorem daysBeforeMonth_one (year : Int) : daysBeforeMonth year 1 = 0 := rfl

/-- A month begins as many days after the one before it as that one has. -/
theorem daysBeforeMonth_succ (year : Int) {month : Nat} (h : 1 ≤ month) :
    daysBeforeMonth year (month + 1) = daysBeforeMonth year month + daysIn year month := by
  -- the sum runs over the months up to the one before
  obtain ⟨m, rfl⟩ : ∃ m, month = m + 1 := ⟨month - 1, by omega⟩
  simp [daysBeforeMonth, List.range_succ]

theorem daysBeforeMonth_mono (year : Int) {m n : Nat} (hm : 1 ≤ m) (h : m ≤ n) :
    daysBeforeMonth year m ≤ daysBeforeMonth year n := by
  induction h with
  | refl => exact Nat.le_refl _
  | @step n hn ih =>
    rw [daysBeforeMonth_succ year (Nat.le_trans hm hn)]
    omega

/-- A year is as long as its months. -/
theorem daysBeforeMonth_thirteen (year : Int) : daysBeforeMonth year 13 = daysInYear year := by
  cases h : isLeap year <;> simp [daysBeforeMonth, List.range_succ, daysIn, daysInYear, h]

/-! ## Dates -/

/-- The days of the year before a date. -/
def dayOfYear (d : Date) : Nat := daysBeforeMonth d.year d.month + (d.day - 1)

/-- Days are counted by the years before them and then within the year, from the first day
of the year 2000 on. -/
theorem dayNumber_eq (d : Date) :
    d.dayNumber = daysBeforeYear d.year + d.dayOfYear - 730485 := by
  rw [dayNumber, dayOfYear]
  omega

/-- A day of a month comes before the next month does. -/
theorem dayOfYear_lt_next_month (d : Date) :
    d.dayOfYear < daysBeforeMonth d.year (d.month + 1) := by
  obtain ⟨-, -, hm, -, hd, hd'⟩ := d.valid
  rw [daysBeforeMonth_succ d.year hm, dayOfYear]
  omega

/-- A day of a year comes before the next year does. -/
theorem dayOfYear_lt (d : Date) : d.dayOfYear < daysInYear d.year := by
  obtain ⟨-, -, -, hm, -⟩ := d.valid
  rw [← daysBeforeMonth_thirteen]
  exact Nat.lt_of_lt_of_le d.dayOfYear_lt_next_month
    (daysBeforeMonth_mono d.year (by omega) (by omega))

/-- The year decides which date comes first, then the month, then the day. -/
theorem before_iff (a b : Date) : a.before b = true ↔
    a.year < b.year ∨ a.year = b.year ∧
      (a.month < b.month ∨ a.month = b.month ∧ a.day < b.day) := by
  simp [before]

theorem dayNumber_lt_of_before {a b : Date} (h : a.before b = true) :
    a.dayNumber < b.dayNumber := by
  have ha := a.dayOfYear_lt
  have ha' := a.dayOfYear_lt_next_month
  obtain ⟨-, -, -, -, hda, -⟩ := a.valid
  rw [dayNumber_eq, dayNumber_eq]
  -- the greatest field that differs decides
  rcases (before_iff a b).mp h with hyear | ⟨hyear, hmonth | ⟨hmonth, hday⟩⟩
  · -- the year of the second date starts when that of the first one has ended
    have hnext := daysBeforeYear_mono (y := a.year + 1) (z := b.year) (by omega)
    rw [daysBeforeYear_succ] at hnext
    omega
  · -- and so does its month, in the same year
    have hnext := daysBeforeMonth_mono b.year (m := a.month + 1) (n := b.month) (by omega) hmonth
    have hb : daysBeforeMonth b.year b.month ≤ b.dayOfYear := Nat.le_add_right _ _
    rw [hyear] at ha' ⊢
    omega
  · rw [dayOfYear, dayOfYear, hyear, hmonth]
    omega

/-- Two dates are the same if neither of them comes before the other one. -/
theorem eq_of_not_before {a b : Date} (hab : a.before b = false) (hba : b.before a = false) :
    a = b := by
  have hab' := mt (before_iff a b).mpr (by simp [hab])
  have hba' := mt (before_iff b a).mpr (by simp [hba])
  -- where neither comes first, no field differs
  have : a.year = b.year ∧ a.month = b.month ∧ a.day = b.day := by omega
  obtain ⟨year, month, day, valid⟩ := a
  obtain ⟨year', month', day', valid'⟩ := b
  simp only at this
  obtain ⟨rfl, rfl, rfl⟩ := this
  rfl

/-- A date comes before another one just if its number is less. -/
theorem dayNumber_lt_iff (a b : Date) : a.dayNumber < b.dayNumber ↔ a.before b = true := by
  refine ⟨fun h => ?_, dayNumber_lt_of_before⟩
  cases hab : a.before b with
  | true => rfl
  | false =>
    -- the other date would come first, or both are one, and no number is less than itself
    cases hba : b.before a with
    | true =>
      have := dayNumber_lt_of_before hba
      omega
    | false =>
      rw [eq_of_not_before hab hba] at h
      omega

/-- The numbers of the first and of the last date of the calendar. -/
theorem dayNumber_bounds (d : Date) : -96476249 ≤ d.dayNumber ∧ d.dayNumber < 95015280 := by
  have hday := d.dayOfYear_lt
  obtain ⟨hfirst, hlast, -⟩ := d.valid
  -- the first and the last year of the calendar bound all of them
  have hlow := daysBeforeYear_mono hfirst
  have hhigh := daysBeforeYear_mono (y := d.year + 1) (z := lastYear + 1) (by omega)
  rw [daysBeforeYear_succ] at hhigh
  have : daysBeforeYear firstYear = -95745764 := by decide
  have : daysBeforeYear (lastYear + 1) = 95745765 := by decide
  rw [dayNumber_eq]
  omega

/-! ## Dates of numbers -/

/-- The year of average length that a day lies in is the year of the day, or one
next to it. -/
theorem guess_bounds {year : Int} {days : Int} (hlow : daysBeforeYear year ≤ days)
    (hhigh : days < daysBeforeYear (year + 1)) :
    year - 1 ≤ Int.fdiv (400 * days) 146097 ∧ Int.fdiv (400 * days) 146097 ≤ year + 1 := by
  rw [daysBeforeYear_eq] at hlow hhigh
  rw [Int.fdiv_eq_ediv_of_nonneg _ (by decide)]
  omega

/-- The year of a day is the one that it lies in. -/
theorem yearOfDay_of_bounds {year : Int} {days : Int} (hlow : daysBeforeYear year ≤ days)
    (hhigh : days < daysBeforeYear (year + 1)) : yearOfDay days = year := by
  obtain ⟨hguess, hguess'⟩ := guess_bounds hlow hhigh
  unfold yearOfDay
  -- what the guess is computed from does not matter any more
  generalize Int.fdiv (400 * days) 146097 = guess at hguess hguess'
  obtain rfl | rfl | rfl : guess = year - 1 ∨ guess = year ∨ guess = year + 1 := by omega
  · -- the guess is one year too early, and so is not after the day
    have hearlier := daysBeforeYear_mono (y := year - 1) (z := year) (by omega)
    rw [if_neg (by omega), if_pos (by rwa [Int.sub_add_cancel]), Int.sub_add_cancel]
  · rw [if_neg (by omega), if_neg (by omega)]
  · rw [if_pos hhigh, Int.add_sub_cancel]

/-- A day of a month is found by counting months off, of which there are enough left. -/
theorem monthOfDay_of_day (year : Int) {first month day : Nat} (left : Nat) (hfirst : 1 ≤ first)
    (hle : first ≤ month) (hleft : month ≤ first + left) (hday : 1 ≤ day)
    (hday' : day ≤ daysIn year month) :
    monthOfDay year first (daysBeforeMonth year month - daysBeforeMonth year first + (day - 1))
      left = (month, day) := by
  -- the induction is on the months that are left: each one is the month or comes before it
  induction left generalizing first with
  | zero =>
    obtain rfl : first = month := by omega
    rw [monthOfDay, Nat.sub_self]
    congr
    omega
  | succ left ih =>
    rw [monthOfDay]
    rcases Nat.eq_or_lt_of_le hle with rfl | hlt
    · rw [Nat.sub_self, if_pos (by omega)]
      congr
      omega
    · -- the month comes later, so that the days reach beyond this one
      have hnext := daysBeforeMonth_succ year hfirst
      have hmono := daysBeforeMonth_mono year (m := first + 1) (n := month) (by omega) hlt
      have hrest := ih (Nat.le_add_left 1 first) hlt (by omega)
      rw [if_neg (by omega), ← hrest]
      congr 1
      omega

/-- A date is found again by its number. -/
theorem ofDayNumber?_dayNumber (d : Date) : ofDayNumber? d.dayNumber = some d := by
  obtain ⟨-, -, hm, hm', hd, hd'⟩ := d.valid
  have hyear : yearOfDay (d.dayNumber + 730485) = d.year := by
    have := d.dayOfYear_lt
    have := daysBeforeYear_succ d.year
    have := dayNumber_eq d
    exact yearOfDay_of_bounds (by omega) (by omega)
  -- within its year, the date is so many days behind the first of January
  have hday : (d.dayNumber + 730485 - daysBeforeYear d.year).toNat =
      daysBeforeMonth d.year d.month - daysBeforeMonth d.year 1 + (d.day - 1) := by
    rw [dayNumber_eq, daysBeforeMonth_one, dayOfYear]
    omega
  simp only [ofDayNumber?, hyear, hday,
    monthOfDay_of_day d.year 11 (Nat.le_refl 1) hm (by omega) hd hd']
  exact ofYmd?_eq_some_iff.mpr ⟨rfl, rfl, rfl⟩

end Date

end SqlPaging.Calendar
