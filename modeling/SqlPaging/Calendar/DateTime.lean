import SqlPaging.Calendar.Date

/-!
# SqlPaging — dates with a time of day

A time of day has hours, minutes, seconds and nanoseconds. A leap second is the
second in front of it with a billion nanoseconds or more. Clocks and texts have
it as the last second of a minute only, but a time of day may have it behind any
second. A date with a time carries no zone; stored instants are such times in
UTC.

`DateTime.instant` places a time on the line of seconds since the first moment
of the year 2000, which is the form for comparing and adding.

Main results:

* `Instant.atOrAfter_refl` — an instant is at or after itself.
* `TimeOfDay.secondOfDay_lt` — a time of day lies within one day.
* `TimeOfDay.ofSecond?_secondOfDay` — its second of the day and its nanoseconds
  make it up.
-/

namespace SqlPaging.Calendar

/-- The nanoseconds of one second. -/
def billion : Nat := 1000000000

/-- The seconds of one day. -/
def daySeconds : Nat := 86400

/-- A time of day; nanoseconds from a billion on belong to a leap second. -/
structure TimeOfDay where
  hour : Nat
  minute : Nat
  second : Nat
  nanos : Nat
  valid : hour < 24 ∧ minute < 60 ∧ second < 60 ∧ nanos < 2 * billion
deriving DecidableEq, Repr

namespace TimeOfDay

/-- The time of day that a text gives by its fields, if there is one. Second 60 is
the leap second behind second 59; there is no other one that fields can give. -/
def ofHms? (hour minute second nanos : Nat) : Option TimeOfDay :=
  let s := if second = 60 then 59 else second
  let n := if second = 60 then nanos + billion else nanos
  if h : (hour < 24 ∧ minute < 60 ∧ s < 60 ∧ n < 2 * billion) ∧ (n < billion ∨ s = 59) then
    some ⟨hour, minute, s, n, h.1⟩
  else none

/-- The seconds since the day began. -/
def secondOfDay (t : TimeOfDay) : Nat := 3600 * t.hour + 60 * t.minute + t.second

/-- A time of day ends before the day does. -/
theorem secondOfDay_lt (t : TimeOfDay) : t.secondOfDay < daySeconds := by
  have := t.valid
  unfold secondOfDay daySeconds
  omega

/-- The time of day at a second of the day, with the given nanoseconds. -/
def ofSecond? (s nanos : Nat) : Option TimeOfDay :=
  if h : s < daySeconds ∧ nanos < 2 * billion then
    some ⟨s / 3600, s / 60 % 60, s % 60, nanos, by
      have := h.1
      unfold daySeconds at this
      exact ⟨by omega, by omega, by omega, h.2⟩⟩
  else none

/-- A time of day is found again by its second of the day and its nanoseconds. -/
theorem ofSecond?_secondOfDay (t : TimeOfDay) : ofSecond? t.secondOfDay t.nanos = some t := by
  have hvalid := t.valid
  have hhour : t.secondOfDay / 3600 = t.hour := by
    unfold secondOfDay
    omega
  have hminute : t.secondOfDay / 60 % 60 = t.minute := by
    unfold secondOfDay
    omega
  have hsecond : t.secondOfDay % 60 = t.second := by
    unfold secondOfDay
    omega
  simp only [ofSecond?, hhour, hminute, hsecond]
  rw [dif_pos ⟨t.secondOfDay_lt, hvalid.2.2.2⟩]

/-- The second as it is shown: a leap second has the number of the second in front
of it and one more, so that it is second 60 at the end of a minute. -/
def shownSecond (t : TimeOfDay) : Nat := t.second + t.nanos / billion

end TimeOfDay

/-- A date with a time of day. -/
structure DateTime where
  date : Date
  time : TimeOfDay
deriving DecidableEq, Repr

/-- A moment on the line of seconds since the first moment of the year 2000,
with the nanoseconds that have passed in that second. -/
structure Instant where
  seconds : Int
  nanos : Nat
deriving DecidableEq, Repr

/-- The first moment is the same as the second one or comes after it. -/
def Instant.atOrAfter (a b : Instant) : Bool :=
  b.seconds < a.seconds || (b.seconds == a.seconds && b.nanos ≤ a.nanos)

/-- A moment is at or after itself. -/
theorem Instant.atOrAfter_refl (a : Instant) : a.atOrAfter a = true := by simp [atOrAfter]

namespace DateTime

/-- The place of a time on the line of seconds. -/
def instant (t : DateTime) : Instant :=
  { seconds := t.date.dayNumber * daySeconds + t.time.secondOfDay, nanos := t.time.nanos }

/-- The time at the given second of the line, with the given nanoseconds. -/
def ofSeconds? (seconds : Int) (nanos : Nat) : Option DateTime := do
  -- Division rounds down, so a second before the year 2000 is one of the day it is in.
  let date ← Date.ofDayNumber? (Int.fdiv seconds daySeconds)
  let time ← TimeOfDay.ofSecond? (Int.fmod seconds daySeconds).toNat nanos
  some { date, time }

/-- The time a zone shows, as the time that UTC shows: a zone ahead of UTC by
`offset` seconds shows a time that is later by as much. -/
def toUtc? (t : DateTime) (offset : Int) : Option DateTime :=
  ofSeconds? (t.instant.seconds - offset) t.instant.nanos

/-- The first second after the last date. -/
def endOfCalendar : Int := 95015280 * daySeconds

/-- The moment that lies the given number of nanoseconds later, if the calendar
reaches so far. Within a leap second the nanoseconds go on counting; leaving it
takes the leap second for the one in front of it. -/
def later? (t : DateTime) (wait : Nat) : Option Instant :=
  let start := t.instant
  let more := wait % billion
  let moved : Instant :=
    if billion ≤ start.nanos ∧ wait < billion ∧ start.nanos + more < 2 * billion then
      -- The moment is still within the leap second.
      { start with nanos := start.nanos + more }
    else
      -- A leap second is left as if it were the second in front of it.
      let nanos := start.nanos % billion + more
      { seconds := start.seconds + (wait / billion + nanos / billion : Nat)
        nanos := nanos % billion }
  if moved.seconds < endOfCalendar then some moved else none

end DateTime

end SqlPaging.Calendar
