/-!
# SqlPaging — dates

Days of the proleptic Gregorian calendar, from the first day of the year
-262143 to the last day of the year 262142. Day numbers count from the first
day of the year 2000; `ofDayNumber?` inverts `dayNumber` inside the range.

Main results:

* `Date.ofYmd?_eq_some_iff` — a date exists exactly for the valid triples.
* `Date.before_irrefl` — no date comes before itself.
-/

namespace SqlPaging.Calendar

/-- The first year that has dates. -/
def firstYear : Int := -262143

/-- The last year that has dates. -/
def lastYear : Int := 262142

/-- Every fourth year is a leap year, but of the full centuries only every fourth. -/
def isLeap (year : Int) : Bool := year % 4 == 0 && (year % 100 != 0 || year % 400 == 0)

/-- The number of days of a month. -/
def daysIn (year : Int) (month : Nat) : Nat :=
  if month = 2 then (if isLeap year then 29 else 28)
  else if month = 4 ∨ month = 6 ∨ month = 9 ∨ month = 11 then 30
  else 31

/-- The day exists. -/
def Date.Valid (year : Int) (month day : Nat) : Prop :=
  firstYear ≤ year ∧ year ≤ lastYear ∧ 1 ≤ month ∧ month ≤ 12 ∧ 1 ≤ day ∧ day ≤ daysIn year month

instance (y : Int) (m d : Nat) : Decidable (Date.Valid y m d) :=
  inferInstanceAs (Decidable (_ ∧ _))

/-- A day of the calendar. -/
structure Date where
  year : Int
  month : Nat
  day : Nat
  valid : Date.Valid year month day
deriving DecidableEq, Repr

namespace Date

/-- The date with the given year, month and day, if it exists. -/
def ofYmd? (year : Int) (month day : Nat) : Option Date :=
  if h : Valid year month day then some ⟨year, month, day, h⟩ else none

/-- A date is made of its year, month and day, and of no others. -/
theorem ofYmd?_eq_some_iff {y : Int} {m d : Nat} {date : Date} :
    ofYmd? y m d = some date ↔ date.year = y ∧ date.month = m ∧ date.day = d := by
  unfold ofYmd?
  constructor
  · intro h
    split at h
    · cases h
      simp
    · simp at h
  · rintro ⟨rfl, rfl, rfl⟩
    simp [date.valid]

/-! ## Order -/

/-- An earlier date, by year, then month, then day. -/
def before (a b : Date) : Bool :=
  a.year < b.year || (a.year == b.year &&
    (a.month < b.month || (a.month == b.month && a.day < b.day)))

/-- No date comes before itself. -/
theorem before_irrefl (a : Date) : a.before a = false := by simp [before]

/-! ## Day numbers -/

/-- The number of days before the first day of a year, counted from the first
day of the year 0. -/
def daysBeforeYear (year : Int) : Int :=
  let y := year - 1
  -- The one day more is the leap day of the year 0.
  365 * year + Int.fdiv y 4 - Int.fdiv y 100 + Int.fdiv y 400 + 1

/-- The number of days of a year before a month. -/
def daysBeforeMonth (year : Int) (month : Nat) : Nat :=
  (List.range (month - 1)).foldl (fun days i => days + daysIn year (i + 1)) 0

/-- The number of days from the first day of the year 2000. -/
def dayNumber (d : Date) : Int :=
  -- From the year 0 to the year 2000 there are 730485 days.
  daysBeforeYear d.year - 730485 + daysBeforeMonth d.year d.month + (d.day - 1 : Nat)

/-- The year of a day counted from the first day of the year 0: the year of
average length, corrected by one where its first day comes too late or too
early. -/
def yearOfDay (days : Int) : Int :=
  let guess := Int.fdiv (400 * days) 146097
  if days < daysBeforeYear guess then guess - 1
  else if daysBeforeYear (guess + 1) ≤ days then guess + 1
  else guess

/-- The month and the day of the month of a day of the year, from 0, with `left`
months left to try after `month`. -/
def monthOfDay (year : Int) (month dayOfYear : Nat) : Nat → Nat × Nat
  | 0 => (month, dayOfYear + 1)
  | left + 1 =>
    if dayOfYear < daysIn year month then (month, dayOfYear + 1)
    else monthOfDay year (month + 1) (dayOfYear - daysIn year month) left

/-- The date with the given day number, if it is in range. -/
def ofDayNumber? (n : Int) : Option Date :=
  let days := n + 730485
  let year := yearOfDay days
  let (month, day) := monthOfDay year 1 (days - daysBeforeYear year).toNat 11
  ofYmd? year month day

end Date

end SqlPaging.Calendar
