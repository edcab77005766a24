import SqlPaging.Cursor
import SqlPaging.Postgres.Wire
import SqlPaging.Proofs.Calendar.ReadBack

/-!
# SqlPaging — times on the wire

A time is bound as a text with the offset of UTC, and read back from the text when the
server asks for a time. For a time with a zone the text is read with its offset, and the
bytes are those of the microseconds from the first moment of the year 2000 to the time,
in every year of the calendar. For a time without a zone the offset is left over, so
that no time that is bound can be sent as one. Dates are sent as the days from the first
day of that year.

Main results:

* `integerBytes?_micros`, `integerBytes?_dayNumber` — every time and every date fits.
* `times_sent` — which times and dates can be sent, and as what.
* `time_without_zone_refused` — a time that cannot be sent.
-/

namespace SqlPaging

open Calendar

namespace Postgres

/-- An integer that fits is found again in its bytes. -/
theorem integerBytes?_of_fits {width : Nat} {n : Int}
    (h : -(BigEndian.span width : Int) ≤ 2 * n ∧ 2 * n < BigEndian.span width) :
    ∃ bytes, integerBytes? width n = some bytes ∧ integer? width bytes = some n :=
  ⟨_, if_pos h, integer?_encode h.1 h.2⟩

/-- Every time of the calendar fits into eight bytes. -/
theorem integerBytes?_micros (t : DateTime) :
    ∃ bytes, integerBytes? 8 (micros t) = some bytes ∧ integer? 8 bytes = some (micros t) := by
  -- the calendar spans fewer microseconds than eight bytes can count
  have hnanos := t.nanos_lt
  obtain ⟨hlow, hhigh⟩ := t.instant_bounds
  have hspan : (BigEndian.span 8 : Int) = 18446744073709551616 := rfl
  apply integerBytes?_of_fits
  rw [hspan]
  unfold micros
  simp only [DateTime.endOfCalendar, daySeconds, billion] at *
  omega

/-- Every date of the calendar fits into four bytes. -/
theorem integerBytes?_dayNumber (d : Date) :
    ∃ bytes, integerBytes? 4 d.dayNumber = some bytes ∧ integer? 4 bytes = some d.dayNumber := by
  obtain ⟨hlow, hhigh⟩ := d.dayNumber_bounds
  have hspan : (BigEndian.span 4 : Int) = 4294967296 := rfl
  apply integerBytes?_of_fits
  rw [hspan]
  omega

/-- The text that a time is bound as. -/
theorem dateTimeText_postgres (t : DateTime) :
    Dialect.postgres.dateTimeText t = String.ofList (t.chars ' ' ++ "+0000".toList) := rfl

/-- The time that a text shows has the microseconds of the time it is made of. -/
theorem micros_shown (t : DateTime) : micros t.shown = micros t := by
  simp only [micros, DateTime.instant, DateTime.shown, TimeOfDay.shown]
  split
  · rfl
  · -- what the nanoseconds lose is what the second gains
    simp only [TimeOfDay.secondOfDay, TimeOfDay.shownSecond, billion]
    omega

/-- The text of a time is sent as its microseconds where the server asks for a time with a
zone. -/
theorem encodeText?_timestamptz {t : DateTime} (hwhole : t.time.nanos % billion = 0) :
    encodeText? .timestamptz (Dialect.postgres.dateTimeText t) = integerBytes? 8 (micros t) := by
  rw [dateTimeText_postgres, encodeText?, DateTime.parseSqlZoned?_chars hwhole, Option.bind_some,
    micros_shown]

theorem encodeText?_timestamp {t : DateTime} (hwhole : t.time.nanos % billion = 0) :
    encodeText? .timestamp (Dialect.postgres.dateTimeText t) = none := by
  rw [dateTimeText_postgres, encodeText?, DateTime.parseSql?_zone hwhole, Option.bind_none]

theorem encodeText?_date (d : Date) :
    encodeText? .date (Dialect.postgres.dateText d) = integerBytes? 4 d.dayNumber := by
  rw [Dialect.dateText, encodeText?, d.parseSql?_text, Option.bind_some]

end Postgres

open Postgres

/-- A time of a whole second is sent as its microseconds where the server asks for a time
with a zone, and refused where it asks for a time without one. A date is sent as its
days. -/
theorem times_sent {t : DateTime} (hwhole : t.time.nanos % billion = 0) (d : Date) :
    (∃ bound bytes, normalizeScalar .postgres (.dateTime t) = .ok bound ∧
      encode? .timestamptz bound = some (some bytes) ∧ integer? 8 bytes = some (micros t) ∧
      encode? .timestamp bound = none) ∧
    ∃ bound bytes, normalizeScalar .postgres (.date d) = .ok bound ∧
      encode? .date bound = some (some bytes) ∧ integer? 4 bytes = some d.dayNumber := by
  -- each is bound to its text, and the text is read back
  constructor
  · obtain ⟨bytes, hbytes, hmicros⟩ := integerBytes?_micros t
    refine ⟨.str (Dialect.postgres.dateTimeText t), bytes, rfl, ?_, hmicros, ?_⟩
    · rw [encode?, encodeText?_timestamptz hwhole, hbytes, Option.map_some]
    · rw [encode?, encodeText?_timestamp hwhole, Option.map_none]
  · obtain ⟨bytes, hbytes, hdays⟩ := integerBytes?_dayNumber d
    refine ⟨.str (Dialect.postgres.dateText d), bytes, rfl, ?_, hdays⟩
    rw [encode?, encodeText?_date, hbytes, Option.map_some]

/-- The first moment of a year. -/
def newYear (year : Int) (h : Date.Valid year 1 1) : DateTime :=
  { (default : DateTime) with date := ⟨year, 1, 1, h⟩ }

/-- The year 2000 was a leap year, and the year 1999 was not. -/
theorem times_sent_of_new_year :
    (newYear 2001 (by decide)).time.nanos % billion = 0 ∧
    (∃ bound bytes, normalizeScalar .postgres (.dateTime (newYear 2001 (by decide))) = .ok bound ∧
      encode? .timestamptz bound = some (some bytes) ∧
      integer? 8 bytes = some (366 * 86400000000)) ∧
    ∃ bound bytes, normalizeScalar .postgres (.date (newYear 1999 (by decide)).date) = .ok bound ∧
      encode? .date bound = some (some bytes) ∧ integer? 4 bytes = some (-365) := by
  -- a leap year of microseconds, and a year of days before the epoch
  have hwhole : (newYear 2001 (by decide)).time.nanos % billion = 0 := by decide
  obtain ⟨⟨bound, bytes, hbound, hsent, hmicros, -⟩, hdate⟩ :=
    times_sent hwhole (newYear 1999 (by decide)).date
  exact ⟨hwhole, ⟨bound, bytes, hbound, hsent, hmicros⟩, hdate⟩

/-- A moment that is bound cannot be sent as a time without a zone. -/
theorem time_without_zone_refused :
    (newYear 2024 (by decide)).time.nanos % billion = 0 ∧
    ∃ bound, normalizeScalar .postgres (.dateTime (newYear 2024 (by decide))) = .ok bound ∧
      encode? .timestamp bound = none := by
  refine ⟨by decide, _, rfl, ?_⟩
  rw [encode?, encodeText?_timestamp (by decide), Option.map_none]

end SqlPaging
